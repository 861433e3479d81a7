import SafeBump.Library.Confined
import SafeBump.ArenaModel
import SafeBump.SharedArena

/-!
# Where the stamps of an arena come from

No operation makes a stamp up.  What an arena stores, and what it hands out, is drawn
from the source or was there before.  So if a source keeps to some stamps
(`Supplies`), an arena that knows no others will never know or hand out one
(`SharedArena.keeps_serve`, `Arena.keeps_serve`).  That holds of every call,
whether it returns or unwinds, and whatever it stores or fails to store.
-/

namespace SafeBump

open Library.Unwind

/-- In the states of `A` the source hands out stamps that `S` allows, and takes no
allowance back. -/
structure Supplies {σ : Type} (fresh : Source σ) (A : σ → Prop) (S : σ → Stamp → Prop) : Prop where
  keeps : ∀ {src src' r}, A src → fresh src = (r, src') → A src'
  mono : ∀ {src src' r x}, A src → fresh src = (r, src') → S src x → S src' x
  drawn : ∀ {src src' x}, A src → fresh src = (.ok x, src') → S src' x

/-- The stamp in a raw word. -/
def Stamp.ofWord (raw : Nat) : List Stamp := if h : raw = 0 then [] else [⟨raw, h⟩]

@[simp] theorem Stamp.mem_ofWord {x : Stamp} {raw : Nat} : x ∈ ofWord raw ↔ x.get = raw := by
  rw [ofWord]
  split
  · rename_i h
    exact ⟨(fun hx => by cases hx), fun hx => absurd (hx.trans h) x.ne_zero⟩
  · rw [List.mem_singleton, ← Stamp.get_inj]

/-- The stamps an identity stores.  The cached one counts where there is a slot for it. -/
def Identity.stamps (id : Identity) : List Stamp :=
  id.birth :: id.current :: (if 0 < id.currentStart then [id.prefixTail] else []) ++
    id.table.map Prod.snd

def SharedIdentity.stamps (id : SharedIdentity) : List Stamp :=
  Stamp.ofWord id.birth ++ Stamp.ofWord id.current ++
    (if 0 < id.currentStart then [id.prefixTail] else []) ++ (id.table.getD []).map Prod.snd

/-- The stamps a checkpoint carries. -/
def Checkpoint.stamps (cp : Checkpoint) : List Stamp := cp.owner :: cp.tail.toList

/-- The stamps a reply carries. -/
def Reply.carried {T : Type} : Reply T → List Stamp
  | .idx i => [i.stamp]
  | .block b => b.stamp.toList
  | .checkpoint cp => cp.stamps
  | .indexed pairs => pairs.map fun pair => pair.1.stamp
  | _ => []

/-! ## Stored stamps -/

theorem Identity.coveringStamp_mem {table : List (Nat × Stamp)} {slot : Nat} {x : Stamp}
    (h : coveringStamp table slot = some x) : x ∈ table.map Prod.snd := by
  rw [coveringStamp] at h
  split at h
  · cases h
  · obtain ⟨e, he, rfl⟩ := Option.map_eq_some_iff.mp h
    exact List.mem_map_of_mem (List.mem_of_getElem? he)

namespace Identity

variable {id : Identity} {x : Stamp}

theorem mem_stamps : x ∈ id.stamps ↔ x = id.birth ∨ x = id.current ∨
    (0 < id.currentStart ∧ x = id.prefixTail) ∨ x ∈ id.table.map Prod.snd := by
  simp only [stamps, List.cons_append, List.mem_cons, List.mem_append]
  split <;> simp [*]

theorem stampOfCold_mem (id : Identity) (slot : Nat) : id.stampOfCold slot ∈ id.stamps := by
  rw [stampOfCold, mem_stamps]
  cases hc : coveringStamp id.table slot with
  | none => exact .inl rfl
  | some stamp => exact .inr (.inr (.inr (coveringStamp_mem hc)))

theorem stampOf_mem (id : Identity) (slot : Nat) : id.stampOf slot ∈ id.stamps := by
  rw [stampOf]
  split
  · exact mem_stamps.mpr (.inr (.inl rfl))
  · split
    · exact mem_stamps.mpr (.inr (.inr (.inl ⟨by omega, rfl⟩)))
    · exact id.stampOfCold_mem slot

theorem oldCurrent_eq_some {old : Stamp} (h : id.oldCurrent = some old) : old = id.current := by
  rw [oldCurrent] at h
  split at h <;> cases h
  rfl

/-- Archiving stores nothing new. -/
theorem mem_stamps_archive (h : x ∈ id.archive.stamps) : x ∈ id.stamps := by
  cases ho : id.oldCurrent with
  | none => rwa [archive, ho] at h
  | some old =>
      rw [mem_stamps, birth_archive, current_archive, currentStart_archive,
        prefixTail_archive, archive, ho] at h
      rw [mem_stamps]
      rcases h with h | h | h | h
      · exact .inl h
      · exact .inr (.inl h)
      · exact .inr (.inr (.inl h))
      · rw [List.map_append, List.map_singleton, List.mem_append, List.mem_singleton] at h
        rcases h with h | rfl
        · exact .inr (.inr (.inr (List.map_subset _ (List.take_subset _ _) h)))
        · exact .inr (.inl (oldCurrent_eq_some ho))

theorem prefixTailAt_mem (id : Identity) {newLen : Nat} (h : newLen ≠ 0) :
    id.prefixTailAt newLen ∈ id.stamps := by
  rw [prefixTailAt, if_neg h]
  split
  · rename_i old ho
    split
    · exact mem_stamps.mpr (.inr (.inl (oldCurrent_eq_some ho)))
    · exact id.stampOfCold_mem _
  · exact mem_stamps.mpr (.inl rfl)

/-- A commit stores the stamp it draws. -/
theorem mem_stamps_commitWith {newLen : Nat} {stamp : Stamp}
    (h : x ∈ (id.commitWith newLen stamp).stamps) : x = stamp ∨ x ∈ id.stamps := by
  have harchive : x ∈ id.archive.stamps → x ∈ id.stamps := mem_stamps_archive
  rw [mem_stamps] at h
  rcases h with h | h | ⟨hpos, rfl⟩ | h
  · exact .inr (harchive (mem_stamps.mpr (.inl h)))
  · exact .inl h
  · have hpos : 0 < newLen := hpos
    exact .inr (harchive (id.archive.prefixTailAt_mem (Nat.ne_of_gt hpos)))
  · exact .inr (harchive (mem_stamps.mpr (.inr (.inr (.inr h)))))

end Identity

namespace SharedIdentity

variable {id : SharedIdentity} {x : Stamp}

theorem mem_stamps : x ∈ id.stamps ↔ x.get = id.birth ∨ x.get = id.current ∨
    (0 < id.currentStart ∧ x = id.prefixTail) ∨ x ∈ (id.table.getD []).map Prod.snd := by
  simp only [stamps, List.mem_append, Stamp.mem_ofWord]
  split <;> simp [*, or_assoc]

@[simp] theorem stamps_new : new.stamps = [] := rfl

theorem Mirrors.mem_stamps {i : Identity} (h : id.Mirrors i) : x ∈ id.stamps ↔ x ∈ i.stamps := by
  rw [SharedIdentity.mem_stamps, Identity.mem_stamps, h.birth, h.current, h.table, h.start,
    Stamp.get_inj, Stamp.get_inj]
  have htail : 0 < i.currentStart ∧ x = id.prefixTail ↔ 0 < i.currentStart ∧ x = i.prefixTail :=
    and_congr_right fun hpos => by rw [h.tail hpos]
  rw [htail]

end SharedIdentity

/-! ## Calls on an identity -/

section Source

variable {σ : Type} {fresh : Source σ} {A : σ → Prop} {S : σ → Stamp → Prop} {held : List Stamp}

theorem Supplies.confined_draw (hs : Supplies fresh A S) :
    Confined A S held (fun x => [x]) (draw fresh) := by
  intro src hA _
  cases hf : fresh src with
  | mk r src' =>
      cases r with
      | ok stamp =>
          have hrun : (draw fresh).run src = .ok stamp src' := run_draw_ok hf
          rw [hrun]
          refine ⟨hs.keeps hA hf, fun x => hs.mono hA hf, ?_⟩
          rintro _ ⟨⟩ x hx
          rw [List.mem_singleton.mp hx]
          exact hs.drawn hA hf
      | error p =>
          have hrun : (draw fresh).run src = .error (.unwinds p) src' := run_draw_error hf
          rw [hrun]
          exact ⟨hs.keeps hA hf, fun x => hs.mono hA hf, fun _ ha => by cases ha⟩

namespace SharedIdentity

/-- The identity stores stamps that are allowed. -/
def Within (A : σ → Prop) (S : σ → Stamp → Prop) (s : SharedIdentity × σ) : Prop :=
  A s.2 ∧ ∀ x ∈ s.1.stamps, S s.2 x

/-- A call on an identity that keeps to the allowed stamps. -/
abbrev Keeps (A : σ → Prop) (S : σ → Stamp → Prop) (held : List Stamp) {α : Type}
    (f : α → List Stamp) (m : EStateM Exit (SharedIdentity × σ) α) : Prop :=
  Confined (Within A S) (fun s => S s.2) held f m

theorem keeps_drawBeside (hs : Supplies fresh A S) :
    Keeps A S held (fun x => [x]) (drawBeside fresh) :=
  hs.confined_draw.zoom (fun _ h => h.1)
    (fun _ _ h hA hmono => ⟨hA, fun x hx => hmono x (h.2 x hx)⟩)
    (fun _ _ => Iff.rfl) fun _ _ => rfl

/-- What is read off an identity is allowed. -/
theorem Keeps.read {α : Type} {f : α → List Stamp}
    {k : SharedIdentity × σ → EStateM Exit (SharedIdentity × σ) α}
    (hk : ∀ id src, Keeps A S (id.stamps ++ held) f (k (id, src))) :
    Keeps A S held f (get >>= k) :=
  Confined.read (r := fun s => s.1.stamps) (fun _ h => h.2) fun s => hk s.1 s.2

/-- A word of an identity that is set. -/
theorem Keeps.word {id : SharedIdentity} {raw : Nat} {x : Stamp} (hx : x.get = raw)
    (h : raw = id.birth ∨ raw = id.current) :
    Keeps A S (id.stamps ++ held) (fun x => [x]) (pure x) :=
  .pure fun y hy => by
    rw [List.mem_singleton.mp hy]
    exact List.mem_append_left _ (mem_stamps.mpr (h.elim (fun h => .inl (hx.trans h))
      fun h => .inr (.inl (hx.trans h))))

theorem keeps_reread : Keeps A S held (fun x => [x]) reread := by
  refine Keeps.read fun id src => ?_
  dsimp only
  split
  · exact .throw
  · exact Keeps.word rfl (.inr rfl)

/-- Whoever wins stores the stamp it drew, and nothing else is stored. -/
theorem keeps_assign (hs : Supplies fresh A S) :
    Keeps A S held (fun x => [x]) (assign fresh) := by
  refine (keeps_drawBeside hs).bind fun stamp => ?_
  refine Confined.bind (f := nothing) ?_ fun _ => keeps_reread
  rintro ⟨id, src⟩ ⟨hA, hid⟩ hheld
  rw [EStateM.run_modify]
  refine ⟨?_, ?_, fun _ _ _ hx => by cases hx⟩
  all_goals dsimp only [left_ok]; split
  · refine ⟨hA, fun x hx => ?_⟩
    rcases mem_stamps.mp hx with hx | hx | hx
    · exact hheld x (by simp [Stamp.get_inj.mp hx])
    · exact hheld x (by simp [Stamp.get_inj.mp hx])
    · exact hid x (mem_stamps.mpr (.inr (.inr hx)))
  · exact ⟨hA, hid⟩
  · exact fun _ hx => hx
  · exact fun _ hx => hx

theorem keeps_birthStamp (hs : Supplies fresh A S) :
    Keeps A S held (fun x => [x]) (birthStamp fresh) := by
  refine Keeps.read fun id src => ?_
  dsimp only
  split
  · exact keeps_assign hs
  · exact Keeps.word rfl (.inl rfl)

theorem keeps_currentStamp (hs : Supplies fresh A S) :
    Keeps A S held (fun x => [x]) (currentStamp fresh) := by
  refine Keeps.read fun id src => ?_
  dsimp only
  split
  · exact keeps_assign hs
  · exact Keeps.word rfl (.inr rfl)

theorem keeps_stampOfCold (hs : Supplies fresh A S) (slot : Nat) :
    Keeps A S held (fun x => [x]) (stampOfCold fresh slot) := by
  refine Keeps.read fun id src => ?_
  dsimp only
  split
  · exact keeps_birthStamp hs
  · rename_i table ht
    split
    · exact keeps_birthStamp hs
    · rename_i stamp hc
      refine .pure fun x hx => List.mem_append_left _ (mem_stamps.mpr (.inr (.inr (.inr ?_))))
      rw [List.mem_singleton.mp hx, ht]
      exact Identity.coveringStamp_mem hc

theorem keeps_stampOf (hs : Supplies fresh A S) (slot : Nat) :
    Keeps A S held (fun x => [x]) (stampOf fresh slot) := by
  refine Keeps.read fun id src => ?_
  dsimp only
  split
  · exact keeps_currentStamp hs
  · split
    · refine .pure fun x hx => List.mem_append_left _ (mem_stamps.mpr (.inr (.inr (.inl ?_))))
      exact ⟨by omega, List.mem_singleton.mp hx⟩
    · exact keeps_stampOfCold hs slot

theorem keeps_matchesStamp (hs : Supplies fresh A S) (slot : Nat) (stamp : Stamp) :
    Keeps A S held nothing (matchesStamp fresh slot stamp) := by
  refine Keeps.read fun id src => ?_
  dsimp only
  split
  · exact .pure fun _ hx => by cases hx
  · refine Keeps.read fun id src => ?_
    dsimp only
    split
    · exact (keeps_stampOfCold hs slot).bind fun _ => .pure fun _ hx => by cases hx
    · exact .pure fun _ hx => by cases hx

/-- A commit stores the stamp it draws, and what was there before. -/
theorem keeps_commit (hs : Supplies fresh A S) (newLen : Nat) :
    Keeps A S held nothing (commit fresh newLen) := by
  rintro ⟨id, src⟩ ⟨hA, hid⟩ -
  have hsame : Within A S (id, src) ∧ (∀ x, S src x → S src x) := ⟨⟨hA, hid⟩, fun _ hx => hx⟩
  rcases eq_or_ne id.birth 0 with hb | hb
  · have hrun : (commit fresh newLen).run (id, src) = .ok () (id, src) := by simp [commit, hb]
    rw [hrun]
    exact ⟨hsame.1, hsame.2, fun _ _ _ hx => by cases hx⟩
  · rcases eq_or_ne id.current 0 with hc | hc
    · have hrun : (commit fresh newLen).run (id, src)
          = .error (.unwinds .currentUnassigned) (id, src) := by
        simp [commit, archive, oldCurrent, hb, hc, Ne.symm hb]
      rw [hrun]
      exact ⟨hsame.1, hsame.2, fun _ ha => by cases ha⟩
    · obtain ⟨i, hm⟩ := Mirrors.of_assigned hb hc
      cases hf : fresh src with
      | mk r src' =>
          have hmono : ∀ x, S src x → S src' x := fun x => hs.mono hA hf
          cases r with
          | ok stamp =>
              obtain ⟨id', hrun, hm'⟩ := hm.commit_ok hf newLen
              rw [hrun]
              refine ⟨⟨hs.keeps hA hf, fun x hx => ?_⟩, hmono, fun _ _ _ hx => by cases hx⟩
              rcases Identity.mem_stamps_commitWith (hm'.mem_stamps.mp hx) with rfl | hx
              · exact hs.drawn hA hf
              · exact hmono x (hid x (hm.mem_stamps.mpr hx))
          | error p =>
              obtain ⟨id', hrun, hm'⟩ := hm.commit_error hf newLen
              rw [hrun]
              refine ⟨⟨hs.keeps hA hf, fun x hx => ?_⟩, hmono, fun _ ha => by cases ha⟩
              exact hmono x (hid x (hm.mem_stamps.mpr
                (Identity.mem_stamps_archive (hm'.mem_stamps.mp hx))))

end SharedIdentity

/-! ## Calls on an arena -/

section Frame

variable {K T : Type} {stamps : K → List Stamp} {α : Type} {f : α → List Stamp}

/-- The arena stores stamps that are allowed. -/
def Stocked (stamps : K → List Stamp) (A : σ → Prop) (S : σ → Stamp → Prop) (c : Ctx K σ T) :
    Prop :=
  A c.source ∧ ∀ x ∈ stamps c.arena, S c.source x

/-- A call on an arena that keeps to the allowed stamps. -/
abbrev Serves (stamps : K → List Stamp) (A : σ → Prop) (S : σ → Stamp → Prop) (held : List Stamp)
    (f : α → List Stamp) (m : Op K σ T α) : Prop :=
  Confined (Stocked stamps A S) (fun c => S c.source) held f m

namespace Serves

theorem owning {m : Op K σ T α} (hm : Serves stamps A S held f m) (values : List T) :
    Serves stamps A S held f (owning values m) := by
  intro c hc hheld
  obtain ⟨hC, hmono, hres⟩ := hm c hc hheld
  cases hr : m.run c with
  | ok a c' =>
      rw [hr] at hC hmono hres
      rw [run_owning_ok values hr]
      exact ⟨hC, hmono, hres⟩
  | error e c' =>
      rw [hr] at hC hmono
      cases e with
      | unwinds p =>
          rw [run_owning_unwinds values hr]
          exact ⟨hC, hmono, fun _ ha => by cases ha⟩
      | spins =>
          rw [run_owning_spins values hr]
          exact ⟨hC, hmono, fun _ ha => by cases ha⟩

theorem ofExcept {r : Except Panic α} (h : ∀ a, r = .ok a → ∀ x ∈ f a, x ∈ held) :
    Serves stamps A S held f (ofExcept r : Op K σ T α) := by
  cases r with
  | ok a => exact .pure (h a rfl)
  | error p => exact .throw

/-- Only the values of the arena are written. -/
theorem write {h : Ctx K σ T → Ctx K σ T}
    (hs : ∀ c, stamps (h c).arena = stamps c.arena ∧ (h c).source = c.source) :
    Serves stamps A S held nothing (modify h) := by
  refine Confined.write (fun c hc => ?_) fun c x hx => ?_
  · rw [Stocked, (hs c).1, (hs c).2]
    exact hc
  · rw [(hs c).2]
    exact hx

theorem write_bind {h : Ctx K σ T → Ctx K σ T} {k : PUnit → Op K σ T α}
    (hs : ∀ c, stamps (h c).arena = stamps c.arena ∧ (h c).source = c.source)
    (hk : Serves stamps A S held f (k ⟨⟩)) : Serves stamps A S held f (modify h >>= k) :=
  (Serves.write hs).bind fun _ => hk

theorem dropValue (panics : Dtor T) (slot : Nat) (value : T) :
    Serves stamps A S held nothing (dropValue panics slot value : Op K σ T Unit) := by
  intro c hc _
  rw [run_dropValue]
  split <;> exact ⟨hc, fun _ hx => hx, by rintro _ _ _ ⟨⟩⟩

theorem collect (input : Input T) :
    Serves stamps A S held nothing (input.collect : Op K σ T (List T)) := by
  rw [Input.collect]
  exact .ite (fun _ => Serves.owning .throw _) fun _ => .done

end Serves

end Frame

namespace SharedArena

variable {tgt : Target} {T : Type} {α : Type} {f : α → List Stamp}

/-- A call on a concurrent arena that keeps to the allowed stamps. -/
abbrev Keeps (A : σ → Prop) (S : σ → Stamp → Prop) (held : List Stamp) (f : α → List Stamp)
    (m : Op (SharedArena tgt T) σ T α) : Prop :=
  Serves (fun a : SharedArena tgt T => a.identity.stamps) A S held f m

theorem keeps_onIdentity {m : EStateM Exit (SharedIdentity × σ) α}
    (hm : SharedIdentity.Keeps A S held f m) :
    Keeps A S held f (onIdentity m : Op (SharedArena tgt T) σ T α) :=
  hm.zoom (fun _ h => h) (fun _ _ _ h _ => h) (fun _ _ => Iff.rfl) fun _ _ => rfl

theorem keeps_expect (p : Panic) (o : Option α) :
    Keeps A S held nothing (expect p o : Op (SharedArena tgt T) σ T α) := by
  cases o with
  | none => exact .throw
  | some a => exact .done

theorem keeps_reserveRange (len : Nat) :
    Keeps A S held nothing (reserveRange len : Op (SharedArena tgt T) σ T Nat) := by
  refine .ite (fun _ => .throw) fun _ => .get_bind fun c => ?_
  refine (keeps_expect _ _).bind fun reserved => ?_
  exact Serves.write_bind (fun _ => ⟨rfl, rfl⟩) .done

theorem keeps_fill (panics : Dtor T) (slot : Nat) (value : T) :
    Keeps A S held nothing (fill panics slot value : Op (SharedArena tgt T) σ T Unit) := by
  refine .get_bind fun c => ?_
  refine Confined.bind (f := nothing)
    (Serves.owning (Serves.ofExcept fun _ _ _ hx => by cases hx) _) ?_
  rintro ⟨inserted, storage⟩
  refine Serves.write_bind (fun _ => ⟨rfl, rfl⟩) ?_
  exact .ite (fun _ => .done) fun _ => (Serves.dropValue panics slot value).bind fun _ => .throw

theorem keeps_fillRange (panics : Dtor T) (start : Nat) (values : List T) : ∀ offset,
    Keeps A S held nothing (fillRange panics start offset values :
      Op (SharedArena tgt T) σ T Unit) := by
  induction values generalizing held with
  | nil => exact fun _ => .done
  | cons value values ih =>
      intro offset
      refine (Serves.owning (keeps_expect _ _) _).bind fun slot => ?_
      exact (Serves.owning (keeps_fill panics slot value) _).bind fun _ => ih _

theorem keeps_advanceLoop (lastSlot fuel : Nat) :
    Keeps A S held nothing (advanceLoop lastSlot fuel : Op (SharedArena tgt T) σ T Unit) := by
  induction fuel generalizing held with
  | zero => exact .done
  | succ fuel ih =>
      refine .get_bind fun c => .ite (fun _ => .done) fun _ => ?_
      refine Confined.bind (f := nothing)
        (Serves.ofExcept fun _ _ _ hx => by cases hx) fun set => ?_
      exact .ite (fun _ => Serves.write_bind (fun _ => ⟨rfl, rfl⟩) ih) fun _ => .throw

theorem keeps_advancePublished (lastSlot : Nat) :
    Keeps A S held nothing (advancePublished lastSlot : Op (SharedArena tgt T) σ T Unit) :=
  .get_bind fun _ => keeps_advanceLoop _ _

theorem keeps_alloc (hs : Supplies fresh A S) (panics : Dtor T) (value : T) :
    Keeps A S held (fun i => [i.stamp])
      (alloc fresh panics value : Op (SharedArena tgt T) σ T Idx) := by
  refine (Serves.owning (keeps_onIdentity (SharedIdentity.keeps_currentStamp hs)) _).bind
    fun stamp => ?_
  refine (Serves.owning (keeps_reserveRange 1) _).bind fun slot => ?_
  refine (keeps_fill panics slot value).bind fun _ => ?_
  refine (keeps_advancePublished slot).bind fun _ => .pure fun x hx => ?_
  simpa [nothing] using .inl (List.mem_singleton.mp hx)

theorem keeps_allocBlock (hs : Supplies fresh A S) (panics : Dtor T) (input : Input T) :
    Keeps A S held (fun b => b.stamp.toList)
      (allocBlock fresh panics input : Op (SharedArena tgt T) σ T Block) := by
  refine (Serves.collect input).bind fun values => .ite (fun _ => ?_) fun _ => ?_
  · exact .pure fun _ hx => by cases hx
  · refine (Serves.owning (keeps_onIdentity (SharedIdentity.keeps_currentStamp hs)) _).bind
      fun stamp => ?_
    refine (Serves.owning (keeps_reserveRange _) _).bind fun start => ?_
    refine (keeps_fillRange panics start values 0).bind fun _ => ?_
    refine (keeps_expect _ _).bind fun last => ?_
    refine (keeps_advancePublished last).bind fun _ => Serves.ofExcept fun b hb x hx => ?_
    cases Block.of_new hb
    simpa [nothing] using .inl (List.mem_singleton.mp hx)

theorem keeps_tailOf (hs : Supplies fresh A S) (len : Nat) :
    Keeps A S held Option.toList
      (tailOf fresh len : Op (SharedArena tgt T) σ T (Option Stamp)) := by
  refine .ite (fun _ => .pure fun _ hx => by cases hx) fun _ => ?_
  exact (keeps_onIdentity (SharedIdentity.keeps_stampOf hs _)).map
    fun stamp x hx => List.mem_append_left _ hx

theorem keeps_checkpoint (hs : Supplies fresh A S) :
    Keeps A S held Checkpoint.stamps
      (checkpoint fresh : Op (SharedArena tgt T) σ T Checkpoint) := by
  refine .get_bind fun c => (keeps_tailOf hs _).bind fun tail => ?_
  refine (keeps_onIdentity (SharedIdentity.keeps_birthStamp hs)).bind fun owner => ?_
  refine .pure fun x hx => ?_
  rcases List.mem_cons.mp hx with rfl | hx
  · exact List.mem_cons_self
  · exact List.mem_append_right _ (List.mem_append_left _ hx)

theorem keeps_validateCheckpoint (hs : Supplies fresh A S) (cp : Checkpoint) :
    Keeps A S held nothing
      (validateCheckpoint fresh cp : Op (SharedArena tgt T) σ T (Except CheckpointError Unit)) := by
  refine .get_bind fun c => .ite (fun _ => .done) fun _ => .ite (fun _ => .done) fun _ => ?_
  refine (keeps_tailOf hs cp.len).bind fun tail => ?_
  exact .ite (fun _ => .done) fun _ => .done

theorem keeps_takeSlot (slot : Nat) :
    Keeps A S held nothing (takeSlot slot : Op (SharedArena tgt T) σ T T) := by
  refine Serves.write_bind (fun _ => ⟨rfl, rfl⟩) (.get_bind fun c => ?_)
  refine Confined.bind (f := nothing) (Serves.ofExcept fun _ _ _ hx => by cases hx) ?_
  rintro ⟨value, storage⟩
  exact Serves.write_bind (fun _ => ⟨rfl, rfl⟩) (keeps_expect _ _)

theorem keeps_takeDownTo (panics : Dtor T) (targetLen fuel : Nat) :
    Keeps A S held nothing
      (takeDownTo panics targetLen fuel : Op (SharedArena tgt T) σ T Unit) := by
  induction fuel generalizing held with
  | zero => exact .done
  | succ fuel ih =>
      refine .get_bind fun c => .ite (fun _ => ?_) fun _ => .done
      refine (keeps_takeSlot _).bind fun value => ?_
      exact (Serves.dropValue panics _ value).bind fun _ => ih

theorem keeps_tryRollback (hs : Supplies fresh A S) (panics : Dtor T) (cp : Checkpoint) :
    Keeps A S held nothing
      (tryRollback fresh panics cp : Op (SharedArena tgt T) σ T (Except CheckpointError Unit)) := by
  refine (keeps_validateCheckpoint hs cp).bind fun r => ?_
  cases r with
  | error e => exact .done
  | ok u =>
      refine (keeps_onIdentity (SharedIdentity.keeps_commit hs cp.len)).bind fun _ => ?_
      exact .get_bind fun c => (keeps_takeDownTo panics cp.len _).bind fun _ => .done

theorem keeps_reset (hs : Supplies fresh A S) (panics : Dtor T) :
    Keeps A S held nothing (reset fresh panics : Op (SharedArena tgt T) σ T Unit) :=
  (keeps_onIdentity (SharedIdentity.keeps_commit hs 0)).bind fun _ =>
    .get_bind fun _ => keeps_takeDownTo panics 0 _

theorem keeps_takeAll (slot : Nat) (values : List T) :
    Keeps A S held nothing (takeAll slot values : Op (SharedArena tgt T) σ T (List T)) := by
  induction slot generalizing held values with
  | zero => exact .done
  | succ slot ih => exact (Serves.owning (keeps_takeSlot slot) values).bind fun value => ih _

theorem keeps_drain (hs : Supplies fresh A S) :
    Keeps A S held nothing (drain fresh : Op (SharedArena tgt T) σ T (List T)) :=
  (keeps_onIdentity (SharedIdentity.keeps_commit hs 0)).bind fun _ =>
    .get_bind fun _ => (keeps_takeAll _ []).bind fun _ => .done

theorem keeps_isValid (hs : Supplies fresh A S) (idx : Idx) :
    Keeps A S held nothing (isValid fresh idx : Op (SharedArena tgt T) σ T Bool) :=
  .get_bind fun _ => .ite
    (fun _ => keeps_onIdentity (SharedIdentity.keeps_matchesStamp hs idx.slot idx.stamp))
    fun _ => .done

theorem keeps_tryGet (hs : Supplies fresh A S) (idx : Idx) :
    Keeps A S held nothing (tryGet fresh idx : Op (SharedArena tgt T) σ T (Option T)) := by
  refine (keeps_isValid hs idx).bind fun valid => .ite (fun _ => .done) fun _
    => .get_bind fun c => ?_
  exact Confined.bind (f := nothing) (Serves.ofExcept fun _ _ _ hx => by cases hx) fun _ => .done

/-- The indices an indexed iteration yields carry what the identity stores. -/
theorem keeps_iterIndexedFrom (hs : Supplies fresh A S) (n : Nat) : ∀ pos,
    Keeps A S held (fun pairs => pairs.map fun pair => pair.1.stamp)
      (iterIndexedFrom fresh pos n : Op (SharedArena tgt T) σ T (List (Idx × T))) := by
  induction n generalizing held with
  | zero => exact fun _ => .pure fun _ hx => by cases hx
  | succ n ih =>
      refine fun pos => .get_bind fun c => ?_
      refine Confined.bind (f := nothing) (Serves.ofExcept fun _ _ _ hx => by cases hx)
        fun value => ?_
      refine (keeps_onIdentity (SharedIdentity.keeps_stampOf hs pos)).bind fun stamp => ?_
      refine (ih _).bind fun pairs => .pure fun x hx => ?_
      rcases List.mem_cons.mp hx with rfl | hx
      · exact List.mem_append_right _ List.mem_cons_self
      · exact List.mem_append_left _ hx

theorem keeps_iterIndexed (hs : Supplies fresh A S) :
    Keeps A S held (fun pairs => pairs.map fun pair => pair.1.stamp)
      (iterIndexed fresh : Op (SharedArena tgt T) σ T (List (Idx × T))) :=
  .get_bind fun _ => keeps_iterIndexedFrom hs _ 0

/-- Whatever is asked of it, a concurrent arena stores and hands out allowed stamps only. -/
theorem keeps_serve (hs : Supplies fresh A S) (req : Request T) :
    Keeps A S [] Reply.carried (serve fresh req : Op (SharedArena tgt T) σ T (Reply T)) := by
  have hplain : ∀ {α : Type} {k : α → Reply T} {m : Op (SharedArena tgt T) σ T α},
      Keeps A S [] nothing m → (∀ a, (k a).carried = []) → Keeps A S [] Reply.carried (k <$> m) :=
    fun hm hk => hm.map fun a x hx => by rw [hk] at hx; cases hx
  cases req with
  | alloc value panics =>
      exact (keeps_alloc hs panics value).map fun _ _ hx => List.mem_append_left _ hx
  | allocBlock input panics =>
      exact (keeps_allocBlock hs panics input).map fun _ _ hx => List.mem_append_left _ hx
  | extend input panics => exact (keeps_allocBlock hs panics input).map fun _ _ hx => by cases hx
  | checkpoint => exact (keeps_checkpoint hs).map fun _ _ hx => List.mem_append_left _ hx
  | validateCheckpoint cp => exact hplain (keeps_validateCheckpoint hs cp) fun _ => rfl
  | tryRollback cp panics => exact hplain (keeps_tryRollback hs panics cp) fun _ => rfl
  | reset panics => exact hplain (keeps_reset hs panics) fun _ => rfl
  | drain => exact hplain (keeps_drain hs) fun _ => rfl
  | len => exact .get_bind fun _ => .pure fun _ hx => by cases hx
  | isValid idx => exact hplain (keeps_isValid hs idx) fun _ => rfl
  | tryGet idx => exact hplain (keeps_tryGet hs idx) fun _ => rfl
  | iter =>
      refine .get_bind fun c => ?_
      exact Confined.bind (f := nothing) (Serves.ofExcept fun _ _ _ hx => by cases hx)
        fun _ => .pure fun _ hx => by cases hx
  | iterIndexed => exact (keeps_iterIndexed hs).map fun _ _ hx => List.mem_append_left _ hx

end SharedArena

namespace Arena

variable {T : Type} {α : Type} {f : α → List Stamp}

/-- The stamps a single-thread arena stores, the mirror of the current one included. -/
def stamps (a : Arena T) : List Stamp := a.sidecar.elim [] Identity.stamps ++ Stamp.ofWord a.current

/-- A call on a single-thread arena that keeps to the allowed stamps. -/
abbrev Keeps (A : σ → Prop) (S : σ → Stamp → Prop) (held : List Stamp) (f : α → List Stamp)
    (m : Op (Arena T) σ T α) : Prop :=
  Serves Arena.stamps A S held f m

theorem mem_stamps {a : Arena T} {x : Stamp} :
    x ∈ a.stamps ↔ (∃ id, a.sidecar = some id ∧ x ∈ id.stamps) ∨ x.get = a.current := by
  rw [stamps, List.mem_append, Stamp.mem_ofWord]
  cases a.sidecar <;> simp

/-- What is read off an arena is allowed. -/
theorem Keeps.read {k : Ctx (Arena T) σ T → Op (Arena T) σ T α}
    (hk : ∀ c, Keeps A S (c.arena.stamps ++ held) f (k c)) : Keeps A S held f (get >>= k) :=
  Confined.read (r := fun c => c.arena.stamps) (fun _ h => h.2) hk

/-- The identity in the arena that is read. -/
theorem mem_of_sidecar {a : Arena T} {id : Identity} (h : a.sidecar = some id) :
    ∀ x ∈ id.stamps, x ∈ a.stamps ++ held :=
  fun _ hx => List.mem_append_left _ (mem_stamps.mpr (.inl ⟨id, h, hx⟩))

theorem keeps_drawStamp (hs : Supplies fresh A S) :
    Keeps A S held (fun x => [x]) (drawStamp fresh : Op (Arena T) σ T Stamp) :=
  hs.confined_draw.zoom (fun _ h => h.1)
    (fun _ _ h hA hmono => ⟨hA, fun x hx => hmono x (h.2 x hx)⟩)
    (fun _ _ => Iff.rfl) fun _ _ => rfl

theorem mem_stamps_new {stamp x : Stamp} (h : x ∈ (Identity.new stamp).stamps) : x = stamp := by
  rcases Identity.mem_stamps.mp h with h | h | ⟨-, h⟩ | h
  · exact h
  · exact h
  · exact h
  · cases h

theorem keeps_identity (hs : Supplies fresh A S) :
    Keeps A S held Identity.stamps (identity fresh : Op (Arena T) σ T Identity) := by
  refine Keeps.read fun c => ?_
  split
  · exact .pure (mem_of_sidecar ‹_›)
  · refine (keeps_drawStamp hs).bind fun stamp => ?_
    refine Confined.bind (f := nothing) ?_ fun _ => .pure fun x hx => ?_
    · rintro c ⟨hA, -⟩ hheld
      rw [EStateM.run_modify]
      refine ⟨⟨hA, fun x hx => hheld x ?_⟩, fun _ hx => hx, fun _ _ _ hx => by cases hx⟩
      rcases mem_stamps.mp hx with ⟨_, ⟨⟩, hx⟩ | hx
      · exact List.mem_append_left _ (List.mem_singleton.mpr (mem_stamps_new hx))
      · exact List.mem_append_left _ (List.mem_singleton.mpr (Stamp.get_inj.mp hx))
    · rw [mem_stamps_new hx]
      exact List.mem_append_right _ (List.mem_append_left _ List.mem_cons_self)

theorem keeps_currentStamp (hs : Supplies fresh A S) :
    Keeps A S held (fun x => [x]) (currentStamp fresh : Op (Arena T) σ T Stamp) := by
  refine Keeps.read fun c => ?_
  split
  · refine (keeps_identity hs).bind fun id => .pure fun x hx => List.mem_append_left _ ?_
    rw [List.mem_singleton.mp hx]
    exact Identity.mem_stamps.mpr (.inr (.inl rfl))
  · refine .pure fun x hx => List.mem_append_left _ (mem_stamps.mpr (.inr ?_))
    rw [List.mem_singleton.mp hx]

theorem keeps_append (tgt : Target) (values : List T) :
    Keeps A S held nothing (append tgt values : Op (Arena T) σ T Unit) :=
  .get_bind fun _ => .ite (fun _ => Serves.write fun _ => ⟨rfl, rfl⟩) fun _ => .throw

theorem keeps_alloc (tgt : Target) (hs : Supplies fresh A S) (value : T) :
    Keeps A S held (fun i => [i.stamp]) (alloc tgt fresh value : Op (Arena T) σ T Idx) := by
  refine (Serves.owning (keeps_currentStamp hs) _).bind fun stamp => .get_bind fun c => ?_
  refine (Serves.owning (keeps_append tgt [value]) _).bind fun _ => .pure fun x hx => ?_
  simpa [nothing] using .inl (List.mem_singleton.mp hx)

theorem keeps_allocBlock (tgt : Target) (hs : Supplies fresh A S) (input : Input T) :
    Keeps A S held (fun b => b.stamp.toList)
      (allocBlock tgt fresh input : Op (Arena T) σ T Block) := by
  refine (Serves.collect input).bind fun values => .ite (fun _ => ?_) fun _ => ?_
  · exact .pure fun _ hx => by cases hx
  · refine (Serves.owning (keeps_currentStamp hs) _).bind fun stamp => .get_bind fun c => ?_
    refine (Serves.owning (keeps_append tgt values) _).bind fun _ => Serves.ofExcept
      fun b hb x hx => ?_
    cases Block.of_new hb
    simpa [nothing] using .inl (List.mem_singleton.mp hx)

theorem keeps_checkpoint (hs : Supplies fresh A S) :
    Keeps A S held Checkpoint.stamps (checkpoint fresh : Op (Arena T) σ T Checkpoint) := by
  refine (keeps_identity hs).bind fun id => .get_bind fun c => .pure fun x hx => ?_
  refine List.mem_append_left _ ?_
  rcases List.mem_cons.mp hx with rfl | hx
  · exact Identity.mem_stamps.mpr (.inl rfl)
  · rw [tailOf] at hx
    split at hx
    · cases hx
    · rw [List.mem_singleton.mp hx]
      exact id.stampOf_mem _

/-- A commit stores the stamp it draws, and what the identity stored. -/
theorem keeps_commit (hs : Supplies fresh A S) (newLen : Nat) {id : Identity}
    (hid : ∀ x ∈ id.stamps, x ∈ held) :
    Keeps A S held nothing (commit fresh id newLen : Op (Arena T) σ T Unit) := by
  rintro ⟨a, src, d⟩ ⟨hA, ha⟩ hheld
  cases hf : fresh src with
  | mk r src' =>
      have hmono : ∀ x, S src x → S src' x := fun x => hs.mono hA hf
      cases r with
      | ok stamp =>
          have hrun : (commit fresh id newLen).run ⟨a, src, d⟩ = .ok ()
              ⟨{ a with sidecar := some (id.commitWith newLen stamp), current := stamp.get },
                src', d⟩ := by
            have hinner : (Identity.commit fresh newLen).run (id, src)
                = .ok () (id.commitWith newLen stamp, src') := Identity.run_commit_ok hf newLen
            simp only [EStateM.run] at hinner
            simp only [commit, zoom, EStateM.run, bind, EStateM.bind, hinner]
            rfl
          rw [hrun]
          refine ⟨⟨hs.keeps hA hf, fun x hx => ?_⟩, hmono, fun _ _ _ hx => by cases hx⟩
          rcases mem_stamps.mp hx with ⟨_, ⟨⟩, hx⟩ | hx
          · rcases Identity.mem_stamps_commitWith hx with rfl | hx
            · exact hs.drawn hA hf
            · exact hmono x (hheld x (hid x hx))
          · rw [Stamp.get_inj.mp hx]
            exact hs.drawn hA hf
      | error p =>
          have hrun : (commit fresh id newLen).run ⟨a, src, d⟩
              = .error (.unwinds p) ⟨{ a with sidecar := some id.archive }, src', d⟩ := by
            have hinner : (Identity.commit fresh newLen).run (id, src)
                = .error (.unwinds p) (id.archive, src') := Identity.run_commit_error hf newLen
            simp only [EStateM.run] at hinner
            simp only [commit, zoom, EStateM.run, bind, EStateM.bind, hinner]
          rw [hrun]
          refine ⟨⟨hs.keeps hA hf, fun x hx => ?_⟩, hmono, fun _ ha => by cases ha⟩
          rcases mem_stamps.mp hx with ⟨_, ⟨⟩, hx⟩ | hx
          · exact hmono x (hheld x (hid x (Identity.mem_stamps_archive hx)))
          · exact hmono x (ha x (mem_stamps.mpr (.inr hx)))

theorem keeps_popDownTo (panics : Dtor T) (targetLen fuel : Nat) :
    Keeps A S held nothing (popDownTo panics targetLen fuel : Op (Arena T) σ T Unit) := by
  induction fuel generalizing held with
  | zero => exact .done
  | succ fuel ih =>
      refine .get_bind fun c => .ite (fun _ => ?_) fun _ => .done
      split
      · exact .throw
      · refine Serves.write_bind (fun _ => ⟨rfl, rfl⟩) ?_
        exact (Serves.dropValue panics _ _).bind fun _ => ih

theorem keeps_popAll (panics : Dtor T) (fuel : Nat) :
    Keeps A S held nothing (popAll panics fuel : Op (Arena T) σ T Unit) := by
  induction fuel generalizing held with
  | zero => exact .done
  | succ fuel ih =>
      refine .get_bind fun c => ?_
      dsimp only
      split
      · exact .done
      · refine Serves.write_bind (fun _ => ⟨rfl, rfl⟩) ?_
        exact (Serves.dropValue panics _ _).bind fun _ => ih

theorem keeps_tryRollback (hs : Supplies fresh A S) (panics : Dtor T) (cp : Checkpoint) :
    Keeps A S held nothing
      (tryRollback fresh panics cp : Op (Arena T) σ T (Except CheckpointError Unit)) := by
  refine .get_bind fun c => ?_
  split
  · exact .done
  · refine Keeps.read fun c => ?_
    split
    · exact .throw
    · refine (keeps_commit hs cp.len (mem_of_sidecar ‹_›)).bind fun _ => .get_bind fun c => ?_
      exact (keeps_popDownTo panics cp.len _).bind fun _ => .done

theorem keeps_commitEmpty (hs : Supplies fresh A S) :
    Keeps A S held nothing (commitEmpty fresh : Op (Arena T) σ T Unit) := by
  refine Keeps.read fun c => ?_
  split
  · exact .done
  · exact keeps_commit hs 0 (mem_of_sidecar ‹_›)

theorem keeps_drain (hs : Supplies fresh A S) :
    Keeps A S held nothing (drain fresh : Op (Arena T) σ T (List T)) :=
  (keeps_commitEmpty hs).bind fun _ => .get_bind fun _ =>
    Serves.write_bind (fun _ => ⟨rfl, rfl⟩) .done

/-- The indices an indexed iteration yields carry what the identity stores. -/
theorem stamps_of_iterIndexed {a : Arena T} {pairs : List (Idx × T)}
    (h : a.iterIndexed = .ok pairs) :
    ∀ x ∈ pairs.map (fun pair => pair.1.stamp), x ∈ a.stamps := by
  obtain ⟨items, sidecar, current⟩ := a
  intro x hx
  cases sidecar with
  | none =>
      cases items with
      | nil =>
          cases h
          cases hx
      | cons v items => cases h
  | some id =>
      rw [iterIndexed, collect_holding] at h
      cases h
      obtain ⟨_, hpair, rfl⟩ := List.mem_map.mp hx
      obtain ⟨⟨v, slot⟩, -, rfl⟩ := List.mem_map.mp hpair
      exact mem_stamps.mpr (.inl ⟨id, rfl, id.stampOf_mem slot⟩)

/-- Whatever is asked of it, a single-thread arena stores and hands out allowed stamps only. -/
theorem keeps_serve (tgt : Target) (hs : Supplies fresh A S) (req : Request T) :
    Keeps A S [] Reply.carried (serve tgt fresh req : Op (Arena T) σ T (Reply T)) := by
  have hplain : ∀ {α : Type} {k : α → Reply T} {m : Op (Arena T) σ T α},
      Keeps A S [] nothing m → (∀ a, (k a).carried = []) → Keeps A S [] Reply.carried (k <$> m) :=
    fun hm hk => hm.map fun a x hx => by rw [hk] at hx; cases hx
  have hread : ∀ {k : Ctx (Arena T) σ T → Reply T}, (∀ c, (k c).carried = []) →
      Keeps A S [] Reply.carried (get >>= fun c => pure (k c) : Op (Arena T) σ T (Reply T)) :=
    fun hk => .get_bind fun c => .pure fun x hx => by rw [hk] at hx; cases hx
  cases req with
  | alloc value => exact (keeps_alloc tgt hs value).map fun _ _ hx => List.mem_append_left _ hx
  | allocBlock input =>
      exact (keeps_allocBlock tgt hs input).map fun _ _ hx => List.mem_append_left _ hx
  | extend input => exact (keeps_allocBlock tgt hs input).map fun _ _ hx => by cases hx
  | checkpoint => exact (keeps_checkpoint hs).map fun _ _ hx => List.mem_append_left _ hx
  | validateCheckpoint cp => exact hread fun _ => rfl
  | tryRollback cp panics => exact hplain (keeps_tryRollback hs panics cp) fun _ => rfl
  | reset panics =>
      refine hplain ((keeps_commitEmpty hs).bind fun _ => ?_) fun _ => rfl
      exact .get_bind fun _ => keeps_popAll panics _
  | drain => exact hplain (keeps_drain hs) fun _ => rfl
  | len => exact hread fun _ => rfl
  | isValid idx => exact hread fun _ => rfl
  | tryGet idx => exact hread fun _ => rfl
  | iter => exact hread fun _ => rfl
  | iterIndexed =>
      refine Keeps.read fun c => ?_
      refine Confined.bind (Serves.ofExcept fun pairs hp x hx => ?_) fun pairs =>
        .pure fun x hx => List.mem_append_left _ hx
      exact List.mem_append_left _ (stamps_of_iterIndexed hp x hx)

/-- A write in place brings no stamp. -/
theorem keeps_write (w : Write T) : Keeps A S held nothing (write w : Op (Arena T) σ T Unit) := by
  cases w with
  | getMut idx f =>
      refine .get_bind fun c => ?_
      dsimp only
      split
      · exact .throw
      · exact Serves.write fun _ => ⟨rfl, rfl⟩
  | iterMut f => exact Serves.write fun _ => ⟨rfl, rfl⟩
  | iterIndexedMut f =>
      refine .get_bind fun c => ?_
      exact Confined.bind (f := nothing) (Serves.ofExcept fun _ _ _ hx => by cases hx)
        fun _ => Serves.write fun _ => ⟨rfl, rfl⟩

end Arena

end Source

end SafeBump
