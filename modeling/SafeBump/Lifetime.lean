import SafeBump.Store

/-!
# How long a capability is good

Between two moments of a store boundaries are committed and values are written
in place.  `Store.Extends st cs st'` says that the changes `cs`, oldest first,
lead from `st` to `st'`: every boundary became one commit of the history, and
the value of a slot no boundary reached is the old one with the writes applied.
Extensions compose, and one request extends a store by the boundary it commits.

Where no mark is drawn twice this decides every capability.  A handle is good
until a boundary at or below its slot is committed, and a checkpoint until a
boundary below its length is (`Extends.isValid_iff`,
`Extends.validateCheckpoint_iff`).
-/

namespace SafeBump

open Library (History)
open Library.Unwind

variable {σ T : Type}

/-- What can happen to the value of a slot. -/
inductive Change (T : Type) where
  /-- The slots from `n` on begin a new epoch. -/
  | boundary (n : Nat)
  /-- Every value is rewritten in its slot. -/
  | write (f : Nat → T → T)

namespace Change

/-- The boundaries among some changes. -/
def boundaries : List (Change T) → List Nat
  | [] => []
  | .boundary n :: cs => n :: boundaries cs
  | .write _ :: cs => boundaries cs

/-- What the writes among some changes make of the value of `slot`. -/
def rewritten (slot : Nat) : List (Change T) → T → T
  | [], v => v
  | .boundary _ :: cs, v => rewritten slot cs v
  | .write f :: cs, v => rewritten slot cs (f slot v)

theorem boundaries_append (cs ds : List (Change T)) :
    boundaries (cs ++ ds) = boundaries cs ++ boundaries ds := by
  induction cs with
  | nil => rfl
  | cons c cs ih =>
      cases c with
      | boundary n => exact congrArg (n :: ·) ih
      | write f => exact ih

theorem rewritten_append (slot : Nat) (cs ds : List (Change T)) (v : T) :
    rewritten slot (cs ++ ds) v = rewritten slot ds (rewritten slot cs v) := by
  induction cs generalizing v with
  | nil => rfl
  | cons c cs ih =>
      cases c with
      | boundary n => exact ih v
      | write f => exact ih (f slot v)

/-- The change a request made, if it committed a boundary. -/
def ofBoundary : Option Nat → List (Change T)
  | none => []
  | some n => [.boundary n]

end Change

namespace Store

/-! ## Well-formed stores -/

/-- Every mark a store was given. -/
def marks : Store T → List Stamp
  | unused => []
  | live _ h => h.marks

@[simp] theorem marks_unused : (unused : Store T).marks = [] := rfl

@[simp] theorem marks_live (vs : List T) (h : Epochs) : (live vs h).marks = h.marks := rfl

/-- No mark was drawn twice, and the current epoch starts at a slot in use or at the end. -/
def Ok : Store T → Prop
  | unused => True
  | live vs h => h.Distinct ∧ h.start ≤ vs.length

/-- What a checkpoint is checked for. -/
theorem validateCheckpoint_live {vs : List T} {e : Epochs} {cp : Checkpoint} :
    (live vs e).validateCheckpoint cp = .ok () ↔
      e.birth = cp.owner ∧ cp.len ≤ vs.length ∧ tailOf e cp.len = cp.tail := by
  simp only [validateCheckpoint]
  split
  · rename_i hne
    exact ⟨by intros; contradiction, fun h => absurd h.1 hne⟩
  · rename_i heq
    split
    · rename_i hlt
      exact ⟨by intros; contradiction, fun h => absurd h.2.1 (Nat.not_le.mpr hlt)⟩
    · rename_i hle
      split
      · rename_i hne
        exact ⟨by intros; contradiction, fun h => absurd h.2.2 hne⟩
      · rename_i ht
        exact ⟨fun _ => ⟨not_not.mp heq, Nat.le_of_not_lt hle, not_not.mp ht⟩, fun _ => rfl⟩

/-! ## What a good capability says -/

/-- What a handle is checked for. -/
theorem isValid_live {vs : List T} {e : Epochs} {idx : Idx} :
    (live vs e).isValid idx = true ↔ idx.slot < vs.length ∧ e.markAt idx.slot = idx.stamp := by
  rw [isValid, Bool.and_eq_true, decide_eq_true_iff, decide_eq_true_iff]

theorem slot_lt {st : Store T} {idx : Idx} (h : st.isValid idx = true) :
    idx.slot < st.values.length := by
  cases st with
  | unused => cases h
  | live vs e => exact (isValid_live.mp h).1

theorem stamp_mem {st : Store T} {idx : Idx} (h : st.isValid idx = true) :
    idx.stamp ∈ st.marks := by
  cases st with
  | unused => cases h
  | live vs e => exact (isValid_live.mp h).2 ▸ e.markAt_mem idx.slot

theorem tryGet_of_isValid {st : Store T} {idx : Idx} (h : st.isValid idx = true) :
    st.tryGet idx = st.values[idx.slot]? := if_pos h

/-- The value of a handle can be read exactly while the handle is good. -/
theorem isSome_tryGet (st : Store T) (idx : Idx) : (st.tryGet idx).isSome = st.isValid idx := by
  cases h : st.isValid idx with
  | false => rw [tryGet, h]; rfl
  | true => rw [tryGet_of_isValid h, List.getElem?_eq_getElem (slot_lt h), Option.isSome_some]

theorem owner_mem {st : Store T} {cp : Checkpoint} (h : st.validateCheckpoint cp = .ok ()) :
    cp.owner ∈ st.marks := by
  cases st with
  | unused => cases h
  | live vs e => exact (validateCheckpoint_live.mp h).1 ▸ e.birth_mem

/-! ## Extensions -/

/-- The changes `cs` lead from `st` to `st'`. -/
structure Extends (st : Store T) (cs : List (Change T)) (st' : Store T) : Prop where
  history : ∀ h, st.epochs = some h →
    ∃ ds : List (Nat × Stamp), ds.map Prod.fst = (Change.boundaries cs).reverse ∧
      st'.epochs = some (h.extend ds)
  kept : ∀ slot v, st.values[slot]? = some v → (∀ n ∈ Change.boundaries cs, slot < n) →
    st'.values[slot]? = some (Change.rewritten slot cs v)

namespace Extends

theorem refl (st : Store T) : Extends st [] st where
  history := fun _ hh => ⟨[], rfl, hh⟩
  kept := fun _ _ hv _ => hv

theorem trans {st st' st'' : Store T} {cs ds : List (Change T)} (h : Extends st cs st')
    (h' : Extends st' ds st'') : Extends st (cs ++ ds) st'' where
  history := by
    intro e he
    obtain ⟨as, has, he'⟩ := h.history e he
    obtain ⟨bs, hbs, he''⟩ := h'.history _ he'
    refine ⟨bs ++ as, ?_, ?_⟩
    · rw [List.map_append, has, hbs, Change.boundaries_append, List.reverse_append]
    · rw [he'', History.extend_extend]
  kept := by
    intro slot v hv hb
    rw [Change.boundaries_append] at hb
    rw [Change.rewritten_append]
    refine h'.kept slot _ (h.kept slot v hv fun n hn => ?_) fun n hn => ?_
    · exact hb n (List.mem_append_left _ hn)
    · exact hb n (List.mem_append_right _ hn)

theorem of_step {fresh : Source σ} {st st' : Store T} {src src' : σ} {b : Option Nat}
    (h : Step fresh (st, src) b (st', src')) : Extends st (Change.ofBoundary b) st' := by
  cases h with
  | idle =>
      refine ⟨fun e he => ?_, fun slot v hv _ => ?_⟩
      · cases he
      · cases hv
  | push vs ws e =>
      refine ⟨fun e he => ⟨[], rfl, he⟩, fun slot v hv _ => ?_⟩
      obtain ⟨hlt, _⟩ := List.getElem?_eq_some_iff.mp hv
      exact (List.getElem?_append_left hlt).trans hv
  | failed => exact refl st
  | born ws hf =>
      refine ⟨fun e he => ?_, fun slot v hv _ => ?_⟩
      · cases he
      · cases hv
  | @cut vs e n k _ _ s hf hn hk =>
      refine ⟨fun e' he => ⟨[(n, s)], rfl, ?_⟩, fun slot v hv hb => ?_⟩
      · cases he
        rfl
      · have hlt : slot < k := Nat.lt_of_lt_of_le (hb n (List.mem_singleton_self n)) hk
        exact (List.getElem?_take_of_lt hlt).trans hv

variable {st st' : Store T} {cs : List (Change T)}

/-- No mark is ever taken back. -/
theorem marks_subset (h : Extends st cs st') {s : Stamp} (hs : s ∈ st.marks) :
    s ∈ st'.marks := by
  cases st with
  | unused => cases hs
  | live vs e =>
      obtain ⟨ds, -, he'⟩ := h.history e rfl
      cases st' with
      | unused => cases he'
      | live vs' e' =>
          cases he'
          rw [marks_live, History.marks_extend]
          exact List.mem_append_right _ hs

/-! ## Handles -/

/-- A good handle stays good until a boundary reaches its slot. -/
theorem isValid_iff (h : Extends st cs st') (hok : st'.Ok) {idx : Idx}
    (hv : st.isValid idx = true) :
    st'.isValid idx = true ↔ ∀ n ∈ Change.boundaries cs, idx.slot < n := by
  cases st with
  | unused => cases hv
  | live vs e =>
      obtain ⟨hlt, hmark⟩ := isValid_live.mp hv
      obtain ⟨ds, hds, he'⟩ := h.history e rfl
      cases st' with
      | unused => cases he'
      | live vs' e' =>
          cases he'
          have hall : (∀ c ∈ ds, idx.slot < c.1) ↔
              ∀ n ∈ Change.boundaries cs, idx.slot < n := by
            rw [← List.forall_mem_map (f := Prod.fst) (P := fun n => idx.slot < n), hds]
            simp only [List.mem_reverse]
          have hsame := History.markAt_extend_eq_iff hok.1 idx.slot
          simp only [isValid, Bool.and_eq_true, decide_eq_true_iff, ← hall, ← hsame, hmark]
          refine ⟨And.right, fun heq => ⟨?_, heq⟩⟩
          have hkept := h.kept idx.slot _ (List.getElem?_eq_getElem hlt)
            (hall.mp (hsame.mp (heq.trans hmark.symm)))
          exact (List.getElem?_eq_some_iff.mp hkept).1

/-- While a handle is good it names the value it was issued for, as rewritten. -/
theorem tryGet_eq (h : Extends st cs st') (hok : st'.Ok) {idx : Idx} (hv : st.isValid idx = true)
    (hv' : st'.isValid idx = true) :
    st'.tryGet idx = (st.tryGet idx).map (Change.rewritten idx.slot cs) := by
  have hb := (h.isValid_iff hok hv).mp hv'
  have hget := List.getElem?_eq_getElem (slot_lt hv)
  rw [tryGet_of_isValid hv', tryGet_of_isValid hv, h.kept _ _ hget hb, hget, Option.map_some]

/-- A handle that carries the current mark never went bad, and names a slot of the
current epoch. -/
theorem of_current (h : st.Extends cs st') (hok : st'.Ok) {idx : Idx}
    (hv : st.isValid idx = true) {e : Epochs} (he : st'.epochs = some e)
    (hcur : idx.stamp = e.current) : st'.isValid idx = true ∧ e.start ≤ idx.slot := by
  have hiff := h.isValid_iff hok hv
  have hold := h.marks_subset (stamp_mem hv)
  cases st with
  | unused => cases hv
  | live vs e₀ =>
      obtain ⟨ds, hds, he'⟩ := h.history e₀ rfl
      cases st' with
      | unused => cases he
      | live vs' e' =>
          cases he
          cases he'
          cases ds with
          | nil =>
              have hnone : Change.boundaries cs = [] := List.reverse_eq_nil_iff.mp hds.symm
              have hv' := hiff.mpr (hnone ▸ List.forall_mem_nil _)
              have hmark := (isValid_live.mp hv').2
              exact ⟨hv', (History.markAt_eq_current_iff hok.1).mp (hmark.trans hcur)⟩
          | cons d ds =>
              -- the current mark is newer than the one the handle carries
              have hmark := (isValid_live.mp hv).2
              have hmem : idx.stamp ∈ (e₀.extend ds).marks := by
                rw [History.marks_extend, ← hmark]
                exact List.mem_append_right _ (e₀.markAt_mem idx.slot)
              have hcur : idx.stamp = d.2 := hcur
              have hdist : ((e₀.extend ds).commit d.1 d.2).Distinct := hok.1
              exact absurd (hcur ▸ hmem) (History.distinct_commit.mp hdist).1

/-! ## Checkpoints -/

/-- A good checkpoint stays good until a boundary below its length is committed. -/
theorem validateCheckpoint_iff (h : Extends st cs st') (hok : st'.Ok) {cp : Checkpoint}
    (hv : st.validateCheckpoint cp = .ok ()) :
    st'.validateCheckpoint cp = .ok () ↔ ∀ n ∈ Change.boundaries cs, cp.len ≤ n := by
  cases st with
  | unused => cases hv
  | live vs e =>
      obtain ⟨hown, hlen, htail⟩ := validateCheckpoint_live.mp hv
      obtain ⟨ds, hds, he'⟩ := h.history e rfl
      cases st' with
      | unused => cases he'
      | live vs' e' =>
          cases he'
          rw [validateCheckpoint_live, History.birth_extend]
          cases hcp : cp.len with
          | zero =>
              rw [hcp] at htail
              exact ⟨fun _ n _ => Nat.zero_le n, fun _ => ⟨hown, Nat.zero_le _, htail⟩⟩
          | succ l =>
              rw [hcp] at hlen htail
              -- the prefix is good exactly when the handle of its last slot is
              have hidx : (live vs e).isValid ⟨e.markAt l, l⟩ = true := by
                simp [isValid, Nat.lt_of_succ_le hlen]
              have hiff := h.isValid_iff hok hidx
              have htail' : tailOf e (l + 1) = some (e.markAt l) := rfl
              rw [← htail, htail', show tailOf (e.extend ds) (l + 1)
                = some ((e.extend ds).markAt l) from rfl, Option.some.injEq]
              simp only [isValid, Bool.and_eq_true, decide_eq_true_iff] at hiff
              exact ⟨fun hg => hiff.mp ⟨hg.2.1, hg.2.2⟩,
                fun hb => ⟨hown, (hiff.mpr hb).1, (hiff.mpr hb).2⟩⟩

end Extends

/-! ## Capabilities of other stores -/

theorem isValid_eq_false {st : Store T} {idx : Idx} (h : idx.stamp ∉ st.marks) :
    st.isValid idx = false := by
  cases st with
  | unused => rfl
  | live vs e =>
      have hne : e.markAt idx.slot ≠ idx.stamp := fun he => h (he ▸ e.markAt_mem idx.slot)
      simp [isValid, hne]

theorem validateCheckpoint_foreign {st : Store T} {cp : Checkpoint} (h : cp.owner ∉ st.marks) :
    st.validateCheckpoint cp = .error .foreignArena := by
  cases st with
  | unused => rfl
  | live vs e =>
      have hne : e.birth ≠ cp.owner := fun he => h (he ▸ e.birth_mem)
      rw [validateCheckpoint, if_pos hne]

/-- Why an own checkpoint is refused. -/
theorem validateCheckpoint_own {vs : List T} {e : Epochs} {cp : Checkpoint}
    (hown : e.birth = cp.owner) {err : CheckpointError}
    (h : (live vs e).validateCheckpoint cp = .error err) :
    err = if vs.length < cp.len then .beyondCurrent cp.len vs.length
      else .divergedPrefix cp.len := by
  rw [validateCheckpoint, if_neg (not_not.mpr hown)] at h
  split at h
  · rename_i hlt
    rw [if_pos hlt]
    cases h
    rfl
  · rename_i hle
    rw [if_neg hle]
    split at h
    · cases h
      rfl
    · cases h

/-! ## Capabilities as they are issued -/

section Issue

variable {tgt : Target} {fresh : Source σ} {c c' : Ctx (Store T) σ T}

theorem insert_ok {values : List T} {stamp : Stamp} {slot : Nat} (hok : c.arena.Ok)
    (h : (insert tgt fresh values).run c = .ok (stamp, slot) c') :
    ∃ vs e, c'.arena = live (vs ++ values) e ∧ stamp = e.current ∧ slot = vs.length ∧
      e.start ≤ vs.length ∧ vs.length + values.length ≤ tgt.usizeMax := by
  -- an insertion into a live store; the first one is one into an empty live store
  have hlive : ∀ (vs : List T) (e : Epochs) (src : σ) (d : List T), e.start ≤ vs.length →
      (insert tgt fresh values).run ⟨live vs e, src, d⟩ = .ok (stamp, slot) c' →
      ∃ vs e, c'.arena = live (vs ++ values) e ∧ stamp = e.current ∧ slot = vs.length ∧
        e.start ≤ vs.length ∧ vs.length + values.length ≤ tgt.usizeMax := by
    intro vs e src d hstart hrun
    rcases Nat.lt_or_ge tgt.usizeMax (vs.length + values.length) with hfull | hfit
    · rw [run_insert_full hfull] at hrun
      cases hrun
    · rw [run_insert_live hfit] at hrun
      cases hrun
      exact ⟨vs, e, rfl, rfl, rfl, hstart, hfit⟩
  obtain ⟨st, src, d⟩ := c
  cases st with
  | live vs e => exact hlive vs e src d hok.2 h
  | unused =>
      rcases hf : fresh src with ⟨p | s, src'⟩
      · rw [run_insert_error hf] at h
        cases h
      · rw [run_insert_ok hf] at h
        exact hlive [] (.new s) src' d (Nat.zero_le _) h

/-- A new slot is good under the current mark. -/
theorem isValid_inserted {vs values : List T} {e : Epochs} {slot : Nat} (hstart : e.start ≤ slot)
    (hslot : slot < vs.length + values.length) :
    (live (vs ++ values) e).isValid ⟨e.current, slot⟩ = true := by
  simp [isValid, hslot, History.markAt_of_start_le hstart]

theorem isValid_indexed {st : Store T} {idx : Idx} {v : T} (h : (idx, v) ∈ st.indexed) :
    st.isValid idx = true ∧ st.values[idx.slot]? = some v := by
  cases st with
  | unused => cases h
  | live vs e =>
      simp only [indexed, List.mem_map, Prod.exists, Prod.mk.injEq] at h
      obtain ⟨a, i, hmem, rfl, rfl⟩ := h
      have hget : vs[i]? = some a := List.mk_mem_zipIdx_iff_getElem?.mp hmem
      obtain ⟨hlt, _⟩ := List.getElem?_eq_some_iff.mp hget
      exact ⟨by simp [isValid, hlt], hget⟩

/-- Indexing a store keeps its values. -/
theorem map_snd_indexed (st : Store T) : st.indexed.map Prod.snd = st.values := by
  cases st with
  | unused => rfl
  | live vs e =>
      rw [indexed, List.map_map]
      exact List.zipIdx_map_fst 0 vs

/-- A handle is good when it is issued. -/
theorem serve_issued {req : Request T} {reply : Reply T} (hok : c.arena.Ok)
    (h : (serve tgt fresh req).run c = .ok reply c') {idx : Idx} (hi : idx ∈ reply.issued tgt) :
    c'.arena.isValid idx = true := by
  cases req with
  | alloc value =>
      obtain ⟨i, hr, rfl⟩ := run_map_ok h
      obtain ⟨⟨stamp, slot⟩, hins, rfl⟩ := run_map_ok hr
      obtain ⟨vs, e, harena, rfl, rfl, hstart, _⟩ := insert_ok hok hins
      cases List.mem_singleton.mp hi
      rw [harena]
      exact isValid_inserted hstart (by simp)
  | allocBlock input =>
      obtain ⟨block, hr, rfl⟩ := run_map_ok h
      obtain ⟨values, panics⟩ := input
      cases panics with
      | true => cases hr
      | false =>
          cases values with
          | nil =>
              cases hr
              cases hi
          | cons v values =>
              rw [run_allocBlock_cons] at hr
              obtain ⟨⟨stamp, start⟩, hins, rfl⟩ := run_map_ok hr
              obtain ⟨vs, e, harena, rfl, rfl, hstart, _⟩ := insert_ok hok hins
              obtain ⟨offset, hlt, _, rfl⟩ := Block.mem_idxs.mp hi
              rw [harena]
              exact isValid_inserted (Nat.le_add_right_of_le hstart) (Nat.add_lt_add_left hlt _)
  | iterIndexed =>
      cases h
      obtain ⟨⟨i, v⟩, hmem, rfl⟩ := List.mem_map.mp hi
      exact (isValid_indexed hmem).1
  -- the other replies issue nothing
  | extend input => obtain ⟨_, _, rfl⟩ := run_map_ok h; cases hi
  | checkpoint => obtain ⟨_, _, rfl⟩ := run_map_ok h; cases hi
  | tryRollback cp panics => obtain ⟨_, _, rfl⟩ := run_map_ok h; cases hi
  | reset panics => obtain ⟨_, _, rfl⟩ := run_map_ok h; cases hi
  | drain => obtain ⟨_, _, rfl⟩ := run_map_ok h; cases hi
  | validateCheckpoint cp => cases h; cases hi
  | len => cases h; cases hi
  | isValid idx => cases h; cases hi
  | tryGet idx => cases h; cases hi
  | iter => cases h; cases hi

/-- A checkpoint is good when it is captured. -/
theorem serve_captured {req : Request T} {cp : Checkpoint}
    (h : (serve tgt fresh req).run c = .ok (.checkpoint cp) c') :
    c'.arena.validateCheckpoint cp = .ok () := by
  cases req with
  | checkpoint =>
      obtain ⟨cp', hr, he⟩ := run_map_ok h
      cases he
      obtain ⟨⟨vs, e⟩, hrun, rfl⟩ := run_map_ok hr
      obtain ⟨st, src, d⟩ := c
      cases st with
      | live vs e =>
          cases hrun
          exact validateCheckpoint_live.mpr ⟨rfl, Nat.le_refl _, rfl⟩
      | unused =>
          rcases hf : fresh src with ⟨p | s, src'⟩
          · rw [run_assigned_error hf] at hrun
            cases hrun
          · rw [run_assigned_ok hf] at hrun
            cases hrun
            exact validateCheckpoint_live.mpr ⟨rfl, Nat.le_refl _, rfl⟩
  | alloc value => obtain ⟨_, _, he⟩ := run_map_ok h; cases he
  | allocBlock input => obtain ⟨_, _, he⟩ := run_map_ok h; cases he
  | extend input => obtain ⟨_, _, he⟩ := run_map_ok h; cases he
  | tryRollback cp panics => obtain ⟨_, _, he⟩ := run_map_ok h; cases he
  | reset panics => obtain ⟨_, _, he⟩ := run_map_ok h; cases he
  | drain => obtain ⟨_, _, he⟩ := run_map_ok h; cases he
  | validateCheckpoint cp => cases h
  | len => cases h
  | isValid idx => cases h
  | tryGet idx => cases h
  | iter => cases h
  | iterIndexed => cases h

end Issue

end Store

end SafeBump
