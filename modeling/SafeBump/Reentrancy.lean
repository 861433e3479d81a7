import SafeBump.Linearization
import SafeBump.WorldStores

/-!
# Iterators that use the arena

`alloc_block` takes `&self`, so the iterator it collects its values from may hold the
same arena and use it from inside `next`: allocate, take checkpoints, look at values,
and collect blocks of its own from iterators that do the same.  `Iter` says what such
an iterator does, with every panic it meets caught or passed on as it likes.

The block touches the arena after the iterator is done.  So nothing is nested on the
arena: the requests made inside `next` are served one after the other, in the order in
which they end, and the block after them (`inTurn_collect`).  From there
`reentrant_blocks_are_contiguous` says what the arena holds in the end, and
`World.reentrant_iterators_keep_blocks` what the blocks collected inside hold then.
-/

namespace SafeBump

open Library.Unwind

variable {tgt : Target} {σ T : Type}

/-- The request takes `&self`. -/
def Request.borrows : Request T → Bool
  | .extend _ _ | .tryRollback _ _ | .reset _ | .drain => false
  | _ => true

/-- What a caller's iterator does.  It goes on with what its requests came to. -/
inductive Iter (T : Type) where
  /-- `next` returns `None`. -/
  | stop
  /-- `next` returns `Some(value)`. -/
  | yield (value : T) (rest : Iter T)
  /-- `next` panics. -/
  | unwind (p : Panic)
  /-- `next` makes a request to the arena. -/
  | request (req : Request T) (hreq : req.borrows = true) (k : Except Panic (Reply T) → Iter T)
  /-- `next` collects a block from another iterator. -/
  | allocBlock (inner : Iter T) (panics : Dtor T) (k : Except Panic Block → Iter T)

/-- Where the collection of an iterator has got. -/
structure Collected (tgt : Target) (σ T : Type) where
  ctx : Ctx (SharedArena tgt T) σ T
  /-- The requests made on the way that have ended, in the order they did, and how. -/
  served : List (Request T × Except Exit (Reply T))
  /-- The values collected. -/
  values : List T
  /-- How the iterator ended. -/
  outcome : Except Exit Unit

namespace Collected

/-- Put what was served before in front. -/
def after (served : List (Request T × Except Exit (Reply T))) (col : Collected tgt σ T) :
    Collected tgt σ T :=
  { col with served := served ++ col.served }

/-- Go on from a request that ended, with the panic caught if it panicked. -/
def resume {α : Type} (served : List (Request T × Except Exit (Reply T))) (values : List T)
    (r : EStateM.Result Exit (Ctx (SharedArena tgt T) σ T) α)
    (k : Except Panic α → Ctx (SharedArena tgt T) σ T → Collected tgt σ T) : Collected tgt σ T :=
  match r with
  | .ok a c => (k (.ok a) c).after served
  | .error (.unwinds p) c => (k (.error p) c).after served
  | .error .spins c => ⟨c, served, values, .error .spins⟩

/-- `alloc_block` after the collection.  If the iterator panicked, what was collected
is dropped. -/
def finish (fresh : Source σ) (panics : Dtor T) (col : Collected tgt σ T) :
    EStateM.Result Exit (Ctx (SharedArena tgt T) σ T) Block :=
  match col.outcome with
  | .ok () => (SharedArena.allocBlock fresh panics ⟨col.values, false⟩).run col.ctx
  | .error (.unwinds p) =>
      .error (.unwinds p) { col.ctx with dropped := col.ctx.dropped ++ col.values }
  | .error .spins => .error .spins col.ctx

/-- The block as a request with plain input, and how that ends. -/
def block (fresh : Source σ) (panics : Dtor T) (col : Collected tgt σ T) :
    List (Request T × Except Exit (Reply T)) :=
  match col.outcome with
  | .ok () =>
      [(.allocBlock ⟨col.values, false⟩ panics, (ending (col.finish fresh panics)).map .block)]
  | .error (.unwinds _) =>
      [(.allocBlock ⟨col.values, true⟩ panics, .error (.unwinds .input))]
  | .error .spins => []

/-- It goes on, or waits forever. -/
theorem resume_cases {α : Type} (served : List (Request T × Except Exit (Reply T)))
    (values : List T) (r : EStateM.Result Exit (Ctx (SharedArena tgt T) σ T) α)
    (k : Except Panic α → Ctx (SharedArena tgt T) σ T → Collected tgt σ T) :
    (∃ a, resume served values r k = (k a (left r)).after served) ∧ ending r ≠ .error .spins ∨
      resume served values r k = ⟨left r, served, values, .error .spins⟩ ∧
        ending r = .error .spins := by
  cases r with
  | ok a c => exact .inl ⟨⟨.ok a, rfl⟩, fun h => by cases h⟩
  | error e c =>
      cases e with
      | unwinds p => exact .inl ⟨⟨.error p, rfl⟩, fun h => by cases h⟩
      | spins => exact .inr ⟨rfl, rfl⟩

end Collected

/-- `iter.into_iter().collect()`, with `values` collected so far. -/
def Iter.collect (fresh : Source σ) :
    Iter T → List T → Ctx (SharedArena tgt T) σ T → Collected tgt σ T
  | .stop, values, c => ⟨c, [], values, .ok ()⟩
  | .yield value rest, values, c => rest.collect fresh (values ++ [value]) c
  | .unwind p, values, c => ⟨c, [], values, .error (.unwinds p)⟩
  | .request req _ k, values, c =>
      let r := (SharedArena.serve fresh req).run c
      .resume [(req, ending r)] values r fun a c => (k a).collect fresh values c
  | .allocBlock inner panics k, values, c =>
      let col := inner.collect fresh [] c
      .resume (col.served ++ col.block fresh panics) values (col.finish fresh panics) fun a c =>
        (k a).collect fresh values c

/-- `SharedArena::alloc_block` of such an iterator. -/
def SharedArena.allocBlockFrom (fresh : Source σ) (panics : Dtor T) (iter : Iter T) :
    Op (SharedArena tgt T) σ T Block := fun c => (iter.collect fresh [] c).finish fresh panics

/-! ## One after the other -/

theorem runs_append {A : Type} (serve : Request T → Op A σ T (Reply T))
    (reqs reqs' : List (Request T))
    (c : Ctx A σ T) :
    runs serve (reqs ++ reqs') c =
      ((runs serve reqs c).1 ++ (runs serve reqs' (runs serve reqs c).2).1,
        (runs serve reqs' (runs serve reqs c).2).2) := by
  induction reqs generalizing c with
  | nil => rfl
  | cons req reqs ih => simp only [List.cons_append, runs, ih]

/-- The requests of `served`, served in turn from `c`, end as it says and leave `c'`. -/
def InTurn (fresh : Source σ) (served : List (Request T × Except Exit (Reply T)))
    (c c' : Ctx (SharedArena tgt T) σ T) : Prop :=
  runs (SharedArena.serve fresh) (served.map Prod.fst) c = (served.map Prod.snd, c')

section InTurn

variable {fresh : Source σ} {c c' c'' : Ctx (SharedArena tgt T) σ T}
  {served served' : List (Request T × Except Exit (Reply T))}

theorem InTurn.nil (c : Ctx (SharedArena tgt T) σ T) : InTurn fresh [] c c := rfl

theorem InTurn.append (h : InTurn fresh served c c') (h' : InTurn fresh served' c' c'') :
    InTurn fresh (served ++ served') c c'' := by
  rw [InTurn] at h h' ⊢
  rw [List.map_append, List.map_append, runs_append, h, h']

theorem InTurn.one (fresh : Source σ) (req : Request T) (c : Ctx (SharedArena tgt T) σ T) :
    InTurn fresh [(req, ending ((SharedArena.serve fresh req).run c))] c
      (left ((SharedArena.serve fresh req).run c)) := rfl

theorem InTurn.resume {α : Type} {r : EStateM.Result Exit (Ctx (SharedArena tgt T) σ T) α}
    (h : InTurn fresh served c (left r)) {values : List T}
    {k : Except Panic α → Ctx (SharedArena tgt T) σ T → Collected tgt σ T}
    (hk : ∀ a, InTurn fresh (k a (left r)).served (left r) (k a (left r)).ctx) :
    InTurn fresh (Collected.resume served values r k).served c
      (Collected.resume served values r k).ctx := by
  rcases Collected.resume_cases served values r k with ⟨⟨a, he⟩, -⟩ | ⟨he, -⟩
  · rw [he]
    exact h.append (hk a)
  · rw [he]
    exact h

/-- The block is served after what the iterator asked for. -/
theorem InTurn.block {col : Collected tgt σ T} (h : InTurn fresh col.served c col.ctx)
    (panics : Dtor T) :
    InTurn fresh (col.served ++ col.block fresh panics) c (left (col.finish fresh panics)) := by
  obtain ⟨ctx, served, values, outcome⟩ := col
  rw [Collected.block, Collected.finish]
  rcases outcome with (p | _) | _
  · exact h.append (InTurn.one fresh (.allocBlock ⟨values, true⟩ panics) ctx)
  · rw [List.append_nil]
    exact h
  · refine h.append ?_
    have hone := InTurn.one fresh (.allocBlock ⟨values, false⟩ panics) ctx
    rwa [SharedArena.serve, ending_run_map, left_run_map] at hone

/-- Whatever the iterator does, its requests are served one after the other. -/
theorem inTurn_collect (fresh : Source σ) (iter : Iter T) (values : List T)
    (c : Ctx (SharedArena tgt T) σ T) :
    InTurn fresh (iter.collect fresh values c).served c (iter.collect fresh values c).ctx := by
  induction iter generalizing values c with
  | stop => exact .nil c
  | yield value rest ih => exact ih _ c
  | unwind p => exact .nil c
  | request req hreq k ih => exact (InTurn.one fresh req c).resume fun a => ih a values _
  | allocBlock inner panics k ih ihk =>
      exact ((ih [] c).block panics).resume fun a => ihk a values _

/-- A block is a request that takes `&self` too. -/
theorem Collected.borrows_block {col : Collected tgt σ T} {panics : Dtor T}
    {x : Request T × Except Exit (Reply T)} (h : x ∈ col.block fresh panics) :
    x.1.borrows = true := by
  rw [Collected.block] at h
  split at h
  · rw [List.mem_singleton.mp h]
    rfl
  · rw [List.mem_singleton.mp h]
    rfl
  · cases h

/-- What holds of every request holds of those that are served. -/
theorem Collected.forall_resume {α : Type} {P : Request T × Except Exit (Reply T) → Prop}
    {values : List T} {r : EStateM.Result Exit (Ctx (SharedArena tgt T) σ T) α}
    {k : Except Panic α → Ctx (SharedArena tgt T) σ T → Collected tgt σ T}
    (h : ∀ x ∈ served, P x) (hk : ∀ a, ∀ x ∈ (k a (left r)).served, P x) :
    ∀ x ∈ (Collected.resume served values r k).served, P x := by
  rcases Collected.resume_cases served values r k with ⟨⟨a, he⟩, -⟩ | ⟨he, -⟩
  · rw [he]
    exact List.forall_mem_append.mpr ⟨h, hk a⟩
  · rw [he]
    exact h

/-- An iterator cannot make other requests. -/
theorem borrows_collect (fresh : Source σ) (iter : Iter T) (values : List T)
    (c : Ctx (SharedArena tgt T) σ T) :
    ∀ x ∈ (iter.collect fresh values c).served, x.1.borrows = true := by
  induction iter generalizing values c with
  | stop => exact fun _ h => by cases h
  | yield value rest ih => exact ih _ c
  | unwind p => exact fun _ h => by cases h
  | request req hreq k ih =>
      exact Collected.forall_resume (List.forall_mem_singleton.mpr hreq) fun a => ih a values _
  | allocBlock inner panics k ih ihk =>
      refine Collected.forall_resume (List.forall_mem_append.mpr ⟨ih [] c, ?_⟩) fun a =>
        ihk a values _
      exact fun _ hx => Collected.borrows_block hx

/-- Nor does the block after it. -/
theorem borrows_served (fresh : Source σ) (panics : Dtor T) (iter : Iter T)
    (c : Ctx (SharedArena tgt T) σ T) :
    let col := iter.collect fresh [] c
    ∀ x ∈ col.served ++ col.block fresh panics, x.1.borrows = true := by
  intro col
  refine List.forall_mem_append.mpr ⟨borrows_collect fresh iter [] c, ?_⟩
  exact fun _ hx => Collected.borrows_block hx

/-- One of the requests waits forever. -/
def Stuck (served : List (Request T × Except Exit (Reply T))) : Prop :=
  ∃ x ∈ served, x.2 = .error .spins

theorem stuck_append : Stuck (served ++ served') ↔ Stuck served ∨ Stuck served' := by
  simp only [Stuck, List.mem_append, or_and_right, exists_or]

theorem stuck_singleton {req : Request T} {e : Except Exit (Reply T)} :
    Stuck [(req, e)] ↔ e = .error .spins := by
  simp only [Stuck, List.mem_singleton, exists_eq_left]

theorem not_stuck_nil : ¬ Stuck ([] : List (Request T × Except Exit (Reply T))) := by
  rintro ⟨_, h, _⟩
  cases h

/-- A request that waits forever is the last one. -/
theorem Collected.spins_resume {α : Type} {values : List T}
    {r : EStateM.Result Exit (Ctx (SharedArena tgt T) σ T) α}
    {k : Except Panic α → Ctx (SharedArena tgt T) σ T → Collected tgt σ T}
    (h : ending r = .error .spins ↔ Stuck served)
    (hk : ∀ a, (k a (left r)).outcome = .error .spins ↔ Stuck (k a (left r)).served) :
    (Collected.resume served values r k).outcome = .error .spins ↔
      Stuck (Collected.resume served values r k).served := by
  rcases Collected.resume_cases served values r k with ⟨⟨a, he⟩, hne⟩ | ⟨he, hend⟩
  · rw [he, Collected.after, stuck_append]
    exact (hk a).trans (or_iff_right fun hs => hne (h.mpr hs)).symm
  · rw [he]
    exact ⟨fun _ => h.mp hend, fun _ => rfl⟩

/-- The block waits forever if the iterator does, or if it does so itself. -/
theorem Collected.spins_finish {col : Collected tgt σ T}
    (h : col.outcome = .error .spins ↔ Stuck col.served) (panics : Dtor T) :
    ending (col.finish fresh panics) = .error .spins ↔
      Stuck (col.served ++ col.block fresh panics) := by
  obtain ⟨ctx, served, values, outcome⟩ := col
  rw [Collected.block, Collected.finish, stuck_append, ← h]
  rcases outcome with (p | _) | _
  · rw [stuck_singleton]
    constructor
    · exact fun he => by cases he
    · rintro (he | he) <;> cases he
  · exact ⟨fun _ => .inl rfl, fun _ => rfl⟩
  · rw [stuck_singleton]
    cases ending ((SharedArena.allocBlock fresh panics ⟨values, false⟩).run ctx) with
    | ok block =>
        constructor
        · exact fun he => by cases he
        · rintro (he | he) <;> cases he
    | error e =>
        constructor
        · rintro ⟨⟩
          exact .inr rfl
        · rintro (he | he)
          · cases he
          · cases he
            rfl

/-- The iterator waits forever if and only if one of its requests does. -/
theorem spins_collect (fresh : Source σ) (iter : Iter T) (values : List T)
    (c : Ctx (SharedArena tgt T) σ T) :
    (iter.collect fresh values c).outcome = .error .spins ↔
      Stuck (iter.collect fresh values c).served := by
  induction iter generalizing values c with
  | stop => exact ⟨(fun h => by cases h), fun h => absurd h not_stuck_nil⟩
  | yield value rest ih => exact ih _ c
  | unwind p => exact ⟨(fun h => by cases h), fun h => absurd h not_stuck_nil⟩
  | request req hreq k ih =>
      exact Collected.spins_resume stuck_singleton.symm fun a => ih a values _
  | allocBlock inner panics k ih ihk =>
      exact Collected.spins_resume (Collected.spins_finish (ih [] c) panics) fun a => ihk a values _

/-- A request that takes `&self` begins no boundary. -/
theorem Request.boundary_of_borrows {req : Request T} (h : req.borrows = true) :
    req.boundary = none := by
  cases req <;> first | rfl | cases h

/-- Requests that take `&self` take nothing back, however they end. -/
theorem InTurn.extends (h : InTurn fresh served c c')
    (hborrows : ∀ x ∈ served, x.1.borrows = true) (hw : c.arena.Whole)
    (hs : c.arena.identity.Sane True) : c.arena.Extends c'.arena := by
  induction served generalizing c with
  | nil =>
      cases (show ([], c) = ([], c') from h)
      exact .refl hw
  | cons x served ih =>
      obtain ⟨hreq, hrest⟩ := List.forall_mem_cons.mp hborrows
      rw [InTurn, List.map_cons, List.map_cons, runs, Prod.mk.injEq, List.cons.injEq] at h
      obtain ⟨⟨-, htail⟩, hlast⟩ := h
      have hext : c.arena.Extends (left ((SharedArena.serve fresh x.1).run c)).arena :=
        SharedArena.serve_extends hw hs (Request.boundary_of_borrows hreq) c.source c.dropped
      have hnext : c.arena.Next (left ((SharedArena.serve fresh x.1).run c)).arena :=
        SharedArena.serve_next hw hs x.1 c.source c.dropped
      have hsane : (left ((SharedArena.serve fresh x.1).run c)).arena.identity.Sane True :=
        hnext.sane.imp_left fun h => ⟨h.1, trivial⟩
      exact hext.trans (ih (Prod.ext htail hlast) hrest hext.whole hsane)

end InTurn

/-! ## What is left of it -/

/-- What a request that ended so left in the arena. -/
def kept (x : Request T × Except Exit (Reply T)) : List T :=
  match x.2 with
  | .ok _ => x.1.stored
  | .error _ => []

/-- What was dropped of it. -/
def lost (x : Request T × Except Exit (Reply T)) : List T :=
  match x.2 with
  | .ok _ => []
  | .error _ => x.1.moved

/-- The requests `served` took an arena like `a₀` to one like `a₁`. -/
structure Appends (a₀ a₁ : Arena T) (d : List T)
    (served : List (Request T × Except Exit (Reply T))) (c : Ctx (SharedArena tgt T) σ T) :
    Prop where
  alike : Alike a₁ c.arena
  items : a₁.items = a₀.items ++ served.flatMap kept
  sidecar : ∀ id, a₀.sidecar = some id → a₁.sidecar = some id
  dropped : c.dropped = d ++ served.flatMap lost
  ends : ∀ x ∈ served, x.2 ≠ .error .spins
  /-- Who stored values was told where. -/
  handles : ∀ pre req reply post, served = pre ++ (req, .ok reply) :: post → req.stored ≠ [] →
    ∃ id, a₁.sidecar = some id ∧
      reply = SharedArena.handle req (id.current, (a₀.items ++ pre.flatMap kept).length)

section Appends

variable {fresh : Source σ} {a₀ a₁ a₂ : Arena T} {a : SharedArena tgt T} {d : List T}
  {c c' : Ctx (SharedArena tgt T) σ T} {served : List (Request T × Except Exit (Reply T))}

theorem Appends.nil (ha : Alike a₀ c.arena) : Appends a₀ a₀ c.dropped [] c where
  alike := ha
  items := (List.append_nil _).symm
  sidecar := fun _ h => h
  dropped := (List.append_nil _).symm
  ends := fun _ hx => by cases hx
  handles := fun pre _ _ _ hs => by cases pre <;> cases hs

theorem Appends.cons {x : Request T × Except Exit (Reply T)} (h : Appends a₀ a₁ d [x] c)
    (h' : Appends a₁ a₂ c.dropped served c') : Appends a₀ a₂ d (x :: served) c' where
  alike := h'.alike
  items := by
    rw [h'.items, h.items, List.flatMap_cons, List.flatMap_cons, List.flatMap_nil, List.append_nil,
      List.append_assoc]
  sidecar := fun id hid => h'.sidecar id (h.sidecar id hid)
  dropped := by
    rw [h'.dropped, h.dropped, List.flatMap_cons, List.flatMap_cons, List.flatMap_nil,
      List.append_nil, List.append_assoc]
  ends := List.forall_mem_cons.mpr ⟨h.ends x (List.mem_singleton_self x), h'.ends⟩
  handles := by
    intro pre req reply post hs hne
    cases pre with
    | nil =>
        cases hs
        obtain ⟨id, hid, hreply⟩ := h.handles [] req reply [] rfl hne
        exact ⟨id, h'.sidecar id hid, hreply⟩
    | cons y pre =>
        cases hs
        obtain ⟨id, hid, hreply⟩ := h'.handles pre req reply post rfl hne
        refine ⟨id, hid, ?_⟩
        rw [hreply, h.items, List.flatMap_cons, List.flatMap_cons, List.flatMap_nil,
          List.append_nil, List.append_assoc]

/-- A request that stored nothing. -/
theorem Appends.quiet {req : Request T} {e : Except Exit (Reply T)} (ha : Alike a₁ c.arena)
    (hitems : a₁.items = a₀.items) (hsidecar : ∀ id, a₀.sidecar = some id → a₁.sidecar = some id)
    (hstored : ∀ reply, e = .ok reply → req.stored = [])
    (hdropped : c.dropped = d ++ lost (req, e)) (hends : e ≠ .error .spins) :
    Appends a₀ a₁ d [(req, e)] c where
  alike := ha
  items := by
    have hkept : kept (req, e) = [] := by
      cases e with
      | ok reply => exact hstored reply rfl
      | error e => rfl
    rw [List.flatMap_cons, List.flatMap_nil, hkept, List.append_nil, List.append_nil, hitems]
  sidecar := hsidecar
  dropped := by rw [List.flatMap_cons, List.flatMap_nil, List.append_nil, hdropped]
  ends := fun x hx => by
    rw [List.mem_singleton.mp hx]
    exact hends
  handles := by
    intro pre req' reply post hs hne
    cases pre with
    | nil =>
        cases hs
        exact absurd (hstored reply rfl) hne
    | cons y pre => cases pre <;> cases hs

/-- Values are stored under the identity that is there. -/
theorem Appends.stored (fresh : Source σ) (hall : ∀ k, tgt.allocates k = true) {items : List T}
    {id : Identity} (hh : a.Holds items) (hid : a.identity.Mirrors id) {req : Request T}
    (hne : req.stored ≠ []) (src : σ) (d : List T) :
    let r := (SharedArena.serve fresh req).run ⟨a, src, d⟩
    ∃ a₁, Appends (.holding items id) a₁ d [(req, ending r)] (left r) := by
  intro r
  have hrun : r = _ := SharedArena.run_serve_placing hne ⟨a, src, d⟩
  rw [run_map] at hrun
  by_cases hfit : items.length + req.stored.length ≤ tgt.usizeMax
  · obtain ⟨sh, hplace, hh', hid'⟩ :=
      SharedArena.run_placing_holds req.movedDtor fresh hall hh hid hne hfit src d
    rw [hplace] at hrun
    rw [hrun]
    refine ⟨.holding (items ++ req.stored) id, .assigned hh' (hid' ▸ hid), ?_, fun _ h => h, ?_, ?_,
      ?_⟩
    · exact congrArg (items ++ ·) (List.append_nil _).symm
    · exact (List.append_nil d).symm
    · intro x hx he
      rw [List.mem_singleton.mp hx] at he
      cases he
    · intro pre req' reply post hs _
      cases pre with
      | nil =>
          cases hs
          exact ⟨id, rfl, by rw [List.flatMap_nil, List.append_nil]; rfl⟩
      | cons y pre => cases pre <;> cases hs
  · have hfull := hh.reserved ▸ Nat.lt_of_not_le hfit
    rw [SharedArena.run_placing_full _ hid hne hfull] at hrun
    rw [hrun]
    refine ⟨.holding items id, .quiet (.assigned hh hid) rfl (fun _ h => h)
      (fun _ h => by cases h) ?_ fun h => by cases h⟩
    exact congrArg (d ++ ·) (Request.moved_of_stored hne).symm

/-- What a single-thread arena shows of a request that stores nothing. -/
theorem Appends.of_arena (fresh : Source σ) (hall : ∀ k, tgt.allocates k = true)
    (ha : Alike a₀ a) {req : Request T} (hstored : req.stored = []) {src : σ} {d : List T}
    {r₀ : EStateM.Result Exit (Ctx (Arena T) σ T) (Reply T)}
    (hrun : (Arena.serve tgt fresh req).run ⟨a₀, src, d⟩ = r₀)
    (hitems : (left r₀).arena.items = a₀.items)
    (hsidecar : ∀ id, a₀.sidecar = some id → (left r₀).arena.sidecar = some id)
    (hdropped : (left r₀).dropped = d ++ lost (req, ending r₀))
    (hends : ending r₀ ≠ .error .spins) :
    let r := (SharedArena.serve fresh req).run ⟨a, src, d⟩
    Appends a₀ (left r₀).arena d [(req, ending r)] (left r) := by
  intro r
  have htogether : Together (⟨a₀, src, d⟩ : Ctx (Arena T) σ T) ⟨a, src, d⟩ := ⟨ha, rfl, rfl⟩
  have hlike := Alike.serve fresh hall req _ _ htogether
  rw [hrun] at hlike
  obtain ⟨halike, -, hdrop⟩ := hlike.left
  have hout := Alike.sameOutcome hlike
  -- the endings are of one kind
  have hsame : lost (req, ending r₀) = lost (req, ending r) ∧ ending r ≠ .error .spins := by
    revert hout hends
    cases ending r₀ with
    | ok reply =>
        intro _ hout
        cases he : ending r with
        | ok reply' => exact ⟨rfl, fun h => by cases h⟩
        | error e' =>
            rw [he] at hout
            exact hout.elim
    | error e =>
        intro hends hout
        cases he : ending r with
        | ok reply' =>
            rw [he] at hout
            exact hout.elim
        | error e' =>
            rw [he] at hout
            refine ⟨rfl, fun h => ?_⟩
            cases h
            rcases hout with rfl | ⟨-, h⟩
            · exact hends rfl
            · cases h
  exact .quiet halike hitems hsidecar (fun _ _ => hstored)
    (hdrop.symm.trans (hsame.1 ▸ hdropped)) hsame.2

/-- A request that takes `&self` adds its values or changes nothing. -/
theorem Appends.one (fresh : Source σ) (hall : ∀ k, tgt.allocates k = true) (ha : Alike a₀ a)
    {req : Request T} (hreq : req.borrows = true) (src : σ) (d : List T) :
    let r := (SharedArena.serve fresh req).run ⟨a, src, d⟩
    ∃ a₁, Appends a₀ a₁ d [(req, ending r)] (left r) := by
  intro r
  by_cases hstored : req.stored = []
  · have hread : ∀ {r₀ : EStateM.Result Exit (Ctx (Arena T) σ T) (Reply T)},
        (Arena.serve tgt fresh req).run ⟨a₀, src, d⟩ = r₀ → left r₀ = ⟨a₀, src, d⟩ →
        req.moved = [] → ending r₀ ≠ .error .spins →
        ∃ a₁, Appends a₀ a₁ d [(req, ending r)] (left r) := by
      intro r₀ hrun hleft hmoved hends
      have hlost : lost (req, ending r₀) = [] := by
        cases ending r₀ with
        | ok reply => rfl
        | error e => exact hmoved
      refine ⟨_, .of_arena fresh hall ha hstored hrun ?_ ?_ ?_ hends⟩
      · rw [hleft]
      · rw [hleft]
        exact fun _ h => h
      · rw [hlost, List.append_nil, hleft]
    cases req with
    | alloc value panics => cases hstored
    | allocBlock input dtor =>
        obtain ⟨values, panics⟩ := input
        cases panics with
        | true =>
            have hrun : (Arena.serve tgt fresh (.allocBlock ⟨values, true⟩ dtor)).run ⟨a₀, src, d⟩
                = .error (.unwinds .input) ⟨a₀, src, d ++ values⟩ := rfl
            exact ⟨_, .of_arena fresh hall ha hstored hrun rfl (fun _ h => h) rfl
              fun h => by cases h⟩
        | false =>
            cases values with
            | nil => exact hread rfl rfl rfl fun h => by cases h
            | cons v values => cases hstored
    | checkpoint =>
        cases ha with
        | assigned hh hid => exact hread rfl rfl rfl fun h => by cases h
        | unassigned hh hid =>
            cases hf : fresh src with
            | mk answer src' =>
                cases answer with
                | error p =>
                    have hrun : (Arena.serve tgt fresh .checkpoint).run ⟨(.new : Arena T), src, d⟩
                        = .error (.unwinds p) ⟨.new, src', d⟩ := by
                      simp [Arena.serve, Arena.checkpoint, Arena.run_identity_error hf]
                    exact ⟨_, .of_arena fresh hall (.unassigned hh hid) hstored hrun rfl
                      (fun _ h => h) (List.append_nil d).symm fun h => by cases h⟩
                | ok s =>
                    have hrun : (Arena.serve tgt fresh .checkpoint).run ⟨(.new : Arena T), src, d⟩
                        = .ok (.checkpoint ⟨s, 0, none⟩) ⟨.holding [] (.new s), src', d⟩ := by
                      simp [Arena.serve, Arena.checkpoint, Arena.run_identity_ok hf]
                      exact ⟨rfl, rfl⟩
                    exact ⟨_, .of_arena fresh hall (.unassigned hh hid) hstored hrun rfl
                      (fun _ h => by cases h) (List.append_nil d).symm fun h => by cases h⟩
    | validateCheckpoint cp => exact hread rfl rfl rfl fun h => by cases h
    | len => exact hread rfl rfl rfl fun h => by cases h
    | isValid idx => exact hread rfl rfl rfl fun h => by cases h
    | tryGet idx => exact hread rfl rfl rfl fun h => by cases h
    | iter => exact hread rfl rfl rfl fun h => by cases h
    | iterIndexed =>
        have hrun : (Arena.serve tgt fresh .iterIndexed).run ⟨a₀, src, d⟩
            = (Reply.indexed <$> ofExcept a₀.iterIndexed : Op (Arena T) σ T (Reply T)).run
                ⟨a₀, src, d⟩ := rfl
        cases hi : a₀.iterIndexed with
        | ok pairs =>
            rw [hi] at hrun
            exact hread hrun rfl rfl fun h => by cases h
        | error p =>
            rw [hi] at hrun
            exact hread hrun rfl rfl fun h => by cases h
    | _ => cases hreq
  · cases ha with
    | assigned hh hid => exact Appends.stored fresh hall hh hid hstored src d
    | unassigned hh hid =>
        have hrun : r = _ := SharedArena.run_serve_placing hstored ⟨a, src, d⟩
        rw [run_map] at hrun
        cases hf : fresh src with
        | mk answer src' =>
            cases answer with
            | error p =>
                rw [SharedArena.run_placing_error _ hf hid] at hrun
                rw [hrun]
                refine ⟨.new, .quiet (.unassigned hh hid) rfl (fun _ h => h) (fun _ h => by cases h)
                  ?_ fun h => by cases h⟩
                exact congrArg (d ++ ·) (Request.moved_of_stored hstored).symm
            | ok s =>
                have hborn : ({ a with identity := .born s } : SharedArena tgt T).Holds [] :=
                  ⟨hh.published, hh.reserved, hh.filled, hh.fits⟩
                obtain ⟨a₁, h⟩ := Appends.stored fresh hall hborn (.of_born s) hstored src' d
                rw [SharedArena.run_placing_new _ hf hid, ← run_map,
                  ← SharedArena.run_serve_placing hstored] at hrun
                rw [hrun]
                exact ⟨a₁, h.alike, h.items, (fun _ h => by cases h), h.dropped, h.ends, h.handles⟩

/-- So do any number of them in turn. -/
theorem InTurn.appends (hall : ∀ k, tgt.allocates k = true) (h : InTurn fresh served c c')
    (hborrows : ∀ x ∈ served, x.1.borrows = true) (ha : Alike a₀ c.arena) :
    ∃ a₁, Appends a₀ a₁ c.dropped served c' := by
  induction served generalizing a₀ c with
  | nil =>
      cases (show ([], c) = ([], c') from h)
      exact ⟨a₀, .nil ha⟩
  | cons x served ih =>
      obtain ⟨req, e⟩ := x
      obtain ⟨hreq, hrest⟩ := List.forall_mem_cons.mp hborrows
      obtain ⟨a, src, d⟩ := c
      obtain ⟨a₁, hone⟩ := Appends.one fresh hall ha hreq src d
      rw [InTurn, List.map_cons, List.map_cons, runs, Prod.mk.injEq, List.cons.injEq] at h
      obtain ⟨⟨he, htail⟩, hlast⟩ := h
      have he : ending ((SharedArena.serve fresh req).run ⟨a, src, d⟩) = e := he
      subst he
      obtain ⟨a₂, hmore⟩ := ih (Prod.ext htail hlast) hrest hone.alike
      exact ⟨a₂, hone.cons hmore⟩

/-- A handle of the current epoch reads the value of its slot. -/
theorem run_tryGet_current (h : Alike a₁ c.arena) {id : Identity} (hid : a₁.sidecar = some id)
    {slot : Nat} {v : T} (hv : a₁.items[slot]? = some v) (fresh : Source σ) :
    (SharedArena.tryGet fresh ⟨id.current, slot⟩).run c = .ok (some v) c := by
  obtain ⟨a, src, d⟩ := c
  have h : Alike a₁ a := h
  rw [h.run_tryGet fresh]
  have hcurrent : a₁.current = id.current.get := by
    cases h with
    | unassigned => cases hid
    | assigned =>
        cases hid
        rfl
  rw [Arena.tryGet, hv]
  simp only [Arena.stampMatches, hcurrent, decide_true, Bool.true_or, if_true]

/-- What a request stored is read through its handles, whatever was added since. -/
theorem Appends.reads (h : Appends a₀ a₁ d served c) (fresh : Source σ)
    {pre post : List (Request T × Except Exit (Reply T))} {req : Request T} {reply : Reply T}
    (hs : served = pre ++ (req, .ok reply) :: post) (hne : req.stored ≠ []) :
    ∃ stamp, reply = SharedArena.handle req (stamp, (a₀.items ++ pre.flatMap kept).length) ∧
      ∀ i v, req.stored[i]? = some v →
        (SharedArena.tryGet fresh ⟨stamp, (a₀.items ++ pre.flatMap kept).length + i⟩).run c
          = .ok (some v) c := by
  obtain ⟨id, hid, hreply⟩ := h.handles pre req reply post hs hne
  refine ⟨id.current, hreply, fun i v hv => run_tryGet_current h.alike hid ?_ fresh⟩
  have hitems : a₁.items
      = (a₀.items ++ pre.flatMap kept) ++ (req.stored ++ post.flatMap kept) := by
    rw [h.items, hs, List.flatMap_append, List.flatMap_cons, List.append_assoc]
    rfl
  have hi := (List.getElem?_eq_some_iff.mp hv).1
  rw [hitems, List.getElem?_append_right (Nat.le_add_right _ _), Nat.add_sub_cancel_left,
    List.getElem?_append_left hi, hv]

variable {col : Collected tgt σ T} {panics : Dtor T}

/-- A block that is returned has the values collected. -/
theorem Collected.block_of_ok {b : Block} (h : ending (col.finish fresh panics) = .ok b) :
    col.block fresh panics = [(.allocBlock ⟨col.values, false⟩ panics, .ok (.block b))] := by
  obtain ⟨ctx, served, values, outcome⟩ := col
  rcases outcome with (p | _) | _
  · cases h
  · cases h
  · simp only [Collected.block, h]
    rfl

/-- One that is not drops them. -/
theorem Collected.block_of_unwinds {p : Panic}
    (h : ending (col.finish fresh panics) = .error (.unwinds p)) :
    (col.block fresh panics).flatMap kept = [] ∧
      (col.block fresh panics).flatMap lost = col.values := by
  obtain ⟨ctx, served, values, outcome⟩ := col
  rcases outcome with (q | _) | _
  · exact ⟨rfl, List.append_nil _⟩
  · cases h
  · simp only [Collected.block, h]
    exact ⟨rfl, List.append_nil _⟩

/-- The values of a block that is returned come last, in the slots it names. -/
theorem Appends.block_ok
    (h : Appends a₀ a₁ d (col.served ++ col.block fresh panics) (left (col.finish fresh panics)))
    {b : Block} (hb : ending (col.finish fresh panics) = .ok b) :
    let old := a₀.items ++ col.served.flatMap kept
    a₁.items = old ++ col.values ∧
      (left (col.finish fresh panics)).dropped = d ++ col.served.flatMap lost ∧
      (col.values = [] → b = .empty) ∧
      (col.values ≠ [] → ∃ id, a₁.sidecar = some id ∧
        b = ⟨some id.current, old.length, col.values.length⟩) := by
  intro old
  have hblock := Collected.block_of_ok hb
  refine ⟨?_, ?_, fun hnil => ?_, fun hne => ?_⟩
  · rw [h.items, hblock, List.flatMap_append, List.flatMap_singleton, ← List.append_assoc]
    rfl
  · rw [h.dropped, hblock, List.flatMap_append, List.flatMap_singleton]
    exact congrArg (d ++ ·) (List.append_nil _)
  · obtain ⟨ctx, served, values, outcome⟩ := col
    cases hnil
    rcases outcome with (p | _) | _ <;> cases hb
    rfl
  · obtain ⟨id, hid, hreply⟩ := h.handles col.served _ _ [] (congrArg (col.served ++ ·) hblock) hne
    exact ⟨id, hid, Reply.block.inj hreply⟩

/-- A call that panics leaves what the iterator allocated, and drops its values. -/
theorem Appends.block_error
    (h : Appends a₀ a₁ d (col.served ++ col.block fresh panics) (left (col.finish fresh panics)))
    (hspins : col.outcome = .error .spins ↔ Stuck col.served) {e : Exit}
    (he : ending (col.finish fresh panics) = .error e) :
    (∃ p, e = .unwinds p) ∧ a₁.items = a₀.items ++ col.served.flatMap kept ∧
      (left (col.finish fresh panics)).dropped = d ++ col.served.flatMap lost ++ col.values := by
  cases e with
  | spins =>
      obtain ⟨x, hx, hstuck⟩ := (Collected.spins_finish hspins panics).mp he
      exact absurd hstuck (h.ends x hx)
  | unwinds p =>
      obtain ⟨hkept, hlost⟩ := Collected.block_of_unwinds he
      refine ⟨⟨p, rfl⟩, ?_, ?_⟩
      · rw [h.items, List.flatMap_append, hkept, List.append_nil]
      · rw [h.dropped, List.flatMap_append, hlost, List.append_assoc]

/-- The block of an iterator on an arena that is like a single-thread one. -/
theorem Alike.exists_appends (hall : ∀ k, tgt.allocates k = true) (ha : Alike a₀ a)
    (fresh : Source σ) (panics : Dtor T) (iter : Iter T) (src : σ) (d : List T) :
    let col := iter.collect fresh [] ⟨a, src, d⟩
    ∃ a₁, Appends a₀ a₁ d (col.served ++ col.block fresh panics)
      (left (col.finish fresh panics)) := by
  intro col
  have hturn : InTurn fresh col.served ⟨a, src, d⟩ col.ctx := inTurn_collect fresh iter [] _
  exact (hturn.block panics).appends hall (borrows_served fresh panics iter _) ha

end Appends

/-! ## The theorems -/

/-- From any state of the arena, however its requests end: what an iterator does to the
arena while a block is collected is what its requests do one after the other, and the
block is served after them.  None of it takes anything back: an arena that is whole has
its slots filled as before, and no fewer of them reserved or published. -/
theorem reentrant_requests_take_turns (fresh : Source σ) (panics : Dtor T) (iter : Iter T)
    (c : Ctx (SharedArena tgt T) σ T) :
    let col := iter.collect fresh [] c
    let r := (SharedArena.allocBlockFrom fresh panics iter).run c
    let served := col.served ++ col.block fresh panics
    runs (SharedArena.serve fresh) (served.map Prod.fst) c = (served.map Prod.snd, left r) ∧
      (∀ x ∈ served, x.1.borrows = true) ∧
      (ending r = .error .spins ↔ ∃ x ∈ served, x.2 = .error .spins) ∧
      (c.arena.Whole → c.arena.identity.Sane True →
        c.arena.Extends (left r).arena ∧ c.arena.contents <+: (left r).arena.contents) := by
  intro col r served
  have hturn : InTurn fresh served c (left r) := (inTurn_collect fresh iter [] c).block panics
  have hborrows := borrows_served fresh panics iter c
  refine ⟨hturn, hborrows, ?_, fun hw hs => ?_⟩
  · exact Collected.spins_finish (spins_collect fresh iter [] c) panics
  · have hext := hturn.extends hborrows hw hs
    exact ⟨hext, hext.contents_prefix hw⟩

/-- A block collected from an iterator that uses the arena takes consecutive slots after
everything the iterator allocated, and nothing else of the call is left. -/
theorem reentrant_blocks_are_contiguous (hall : ∀ k, tgt.allocates k = true) {a₀ : Arena T}
    {a : SharedArena tgt T} (ha : Alike a₀ a) (fresh : Source σ) (panics : Dtor T) (iter : Iter T)
    (src : σ) (d : List T) :
    let col := iter.collect fresh [] ⟨a, src, d⟩
    let r := (SharedArena.allocBlockFrom fresh panics iter).run ⟨a, src, d⟩
    let old := a₀.items ++ col.served.flatMap kept
    ∃ a₁, Alike a₁ (left r).arena ∧
      (∀ block, ending r = .ok block →
        a₁.items = old ++ col.values ∧ (left r).dropped = d ++ col.served.flatMap lost ∧
        (col.values = [] → block = .empty) ∧
        (col.values ≠ [] → ∃ id, a₁.sidecar = some id ∧
          block = ⟨some id.current, old.length, col.values.length⟩)) ∧
      -- a call that panics leaves what the iterator allocated, and drops its values
      (∀ e, ending r = .error e → (∃ p, e = .unwinds p) ∧ a₁.items = old ∧
        (left r).dropped = d ++ col.served.flatMap lost ++ col.values) ∧
      -- what the iterator allocated is read through its handles
      ∀ pre req reply post, col.served = pre ++ (req, .ok reply) :: post → req.stored ≠ [] →
        ∃ stamp, reply = SharedArena.handle req (stamp, (a₀.items ++ pre.flatMap kept).length) ∧
          ∀ i v, req.stored[i]? = some v →
            (SharedArena.tryGet fresh ⟨stamp, (a₀.items ++ pre.flatMap kept).length + i⟩).run
              (left r) = .ok (some v) (left r) := by
  intro col r old
  obtain ⟨a₁, h⟩ := ha.exists_appends hall fresh panics iter src d
  refine ⟨a₁, h.alike, fun block hb => h.block_ok hb,
    fun e he => h.block_error (spins_collect fresh iter [] _) he, ?_⟩
  intro pre req reply post hs hne
  have hserved : col.served ++ col.block fresh panics
      = pre ++ (req, .ok reply) :: (post ++ col.block fresh panics) := by
    rw [hs, List.append_assoc, List.cons_append]
  exact h.reads fresh hserved hne

/-- An iterator that allocates, catches the panic of another one it collects a block
from, and yields two values in between. -/
theorem reentrant_blocks_are_contiguous_caught :
    let tgt : Target := ⟨8, fun _ => true⟩
    let iter : Iter Nat := .request (.alloc 1) rfl fun _ =>
      .yield 10
        (.allocBlock (.yield 5 (.unwind .input)) (fun _ _ => false) fun _ => .yield 11 .stop)
    let r := (SharedArena.allocBlockFrom script (fun _ _ => false) iter).run
      ⟨(.new : SharedArena tgt Nat), [.nth 0], []⟩
    ∃ a₁ : Arena Nat, Alike a₁ (left r).arena ∧ a₁.items = [1, 10, 11] ∧
      (left r).dropped = [5] := by
  intro tgt iter r
  have hall : ∀ k, tgt.allocates k = true := fun _ => rfl
  have hblock : ending ((SharedArena.allocBlockFrom script (fun _ _ => false) iter).run
      ⟨(.new : SharedArena tgt Nat), [.nth 0], []⟩) = .ok ⟨some (.nth 0), 1, 2⟩ := by decide +kernel
  obtain ⟨a₁, halike, hok, -⟩ :=
    reentrant_blocks_are_contiguous hall Alike.new script (fun _ _ => false) iter [.nth 0] []
  obtain ⟨hitems, hdropped, -⟩ := hok _ hblock
  have hleft : (Arena.new : Arena Nat).items ++ (iter.collect script []
      ⟨(.new : SharedArena tgt Nat), [.nth 0], []⟩).served.flatMap kept ++ (iter.collect script []
      ⟨(.new : SharedArena tgt Nat), [.nth 0], []⟩).values = [1, 10, 11] := by decide +kernel
  have hlost : [] ++ (iter.collect script []
      ⟨(.new : SharedArena tgt Nat), [.nth 0], []⟩).served.flatMap lost = [5] := by decide +kernel
  exact ⟨a₁, halike, hitems.trans hleft, hdropped.trans hlost⟩

end SafeBump
