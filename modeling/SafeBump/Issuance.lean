import SafeBump.WorldShown

/-!
# The handles in existence

A run hands out handles (`World.issuedOver`), and whoever has one may show it to any
arena at any later time.  The store of the arena that issued a handle knows it from
then on (`Store.Known`): it was good once, and only changes came after.  Whatever
a check reads off such a handle it reads off the store (`World.Shows.sound_of_known`).
-/

namespace SafeBump

variable {tgt : Target} {T : Type}

namespace Store

/-- The handle was good in an earlier state of the store. -/
def Known (st : Store T) (idx : Idx) : Prop :=
  ∃ st₀ cs, Store.isValid st₀ idx = true ∧ Extends st₀ cs st

namespace Known

variable {st st' : Store T} {cs : List (Change T)} {idx : Idx}

theorem of_isValid (h : st.isValid idx = true) : st.Known idx := ⟨st, [], h, .refl st⟩

/-- A handle stays known. -/
theorem later (h : st.Known idx) (hext : st.Extends cs st') : st'.Known idx := by
  obtain ⟨st₀, ds, hv, hds⟩ := h
  exact ⟨st₀, ds ++ cs, hv, hds.trans hext⟩

theorem sound (h : st.Known idx) (hok : st.Ok) : st.Sound idx := by
  obtain ⟨st₀, ds, hv, hds⟩ := h
  exact hds.sound hok hv

/-- A known handle that carries the current mark is good. -/
theorem of_current (h : st.Known idx) (hok : st.Ok) {e : Epochs} (he : st.epochs = some e)
    (hcur : idx.stamp = e.current) : st.isValid idx = true ∧ e.start ≤ idx.slot := by
  obtain ⟨st₀, ds, hv, hds⟩ := h
  exact hds.of_current hok hv he hcur

theorem stamp_mem (h : st.Known idx) : idx.stamp ∈ st.marks := by
  obtain ⟨st₀, ds, hv, hds⟩ := h
  exact hds.marks_subset (Store.stamp_mem hv)

end Known

end Store

namespace World

/-- The handles of an arena an event delivers. -/
def issued (w : World tgt T) (o : Owner) (e : Event T) : List Idx :=
  match w.reply e with
  | none => []
  | some (o', reply) => if o' = o then reply.issued tgt else []

/-- The handles of an arena a run delivers. -/
def issuedOver (o : Owner) : World tgt T → List (Event T) → List Idx
  | _, [] => []
  | w, e :: es => w.issued o e ++ issuedOver o (w.step e) es

theorem issuedOver_append (o : Owner) (w : World tgt T) (es es' : List (Event T)) :
    issuedOver o w (es ++ es') = issuedOver o w es ++ issuedOver o (w.run es) es' := by
  induction es generalizing w with
  | nil => rfl
  | cons e es ih => rw [List.cons_append, issuedOver, issuedOver, ih, run_cons, List.append_assoc]

section Known

variable {w : World tgt T} {stores : Owner → Store T}

theorem mem_issued {o : Owner} {e : Event T} {idx : Idx} :
    idx ∈ w.issued o e ↔ ∃ reply, w.reply e = some (o, reply) ∧ idx ∈ reply.issued tgt := by
  rw [issued]
  cases w.reply e with
  | none => exact ⟨(fun h => by cases h), by rintro ⟨_, ⟨⟩, _⟩⟩
  | some r =>
      obtain ⟨o', reply⟩ := r
      rcases eq_or_ne o' o with rfl | hne
      · simp
      · simp [hne]

/-- What a run issues is known to the store of the arena it comes from. -/
theorem Shows.run_known (h : w.Shows stores) (es : List (Event T)) :
    ∃ stores', (w.run es).Shows stores' ∧
      (∀ o, (stores o).Extends (changesOver o w es) (stores' o)) ∧
      ∀ o idx, idx ∈ issuedOver o w es → (stores' o).Known idx := by
  induction es generalizing w stores with
  | nil => exact ⟨stores, h, fun o => .refl _, by intros; contradiction⟩
  | cons e es ih =>
      obtain ⟨stores₁, hm⟩ := h.moves e
      obtain ⟨stores₂, h₂, hext, hknown⟩ := ih hm.kept
      refine ⟨stores₂, h₂, fun o => (hm.extended o).trans (hext o), fun o idx hi => ?_⟩
      rcases List.mem_append.mp hi with hi | hi
      · obtain ⟨reply, hr, hidx⟩ := mem_issued.mp hi
        exact (Store.Known.of_isValid ((hm.issued o reply hr).1 idx hidx)).later (hext o)
      · exact hknown o idx hi

/-- A handle of one arena is sound for all of them. -/
theorem Shows.sound_of_known (h : w.Shows stores) {o : Owner} {idx : Idx}
    (hk : (stores o).Known idx) (b : Owner) : (stores b).Sound idx := by
  rcases eq_or_ne b o with rfl | hne
  · exact hk.sound (h.ok b)
  · exact Store.sound_of_notMem fun hs => hne (h.apart hs hk.stamp_mem)

end Known

/-- What is known of the handles in existence. -/
theorem exists_known (es : List (Event T)) :
    ∃ stores, ((initial : World tgt T).run es).Shows stores ∧
      ∀ o idx, idx ∈ issuedOver o (initial : World tgt T) es → (stores o).Known idx := by
  obtain ⟨stores, h, -, hknown⟩ := (Shows.initial : (initial : World tgt T).Shows _).run_known es
  exact ⟨stores, h, hknown⟩

end World

end SafeBump
