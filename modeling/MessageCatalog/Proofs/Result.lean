import Mathlib.Data.List.Forall2

/-!
Work that may fail. Work on a list is done item by item, and the first item on which it fails
decides how it fails.
-/

namespace MessageCatalog

section Results

variable {ε α β : Type} {result : Except ε α}

theorem map_eq_ok_iff {change : α → β} {value : β} :
    result.map change = .ok value ↔ ∃ found, result = .ok found ∧ change found = value := by
  cases result <;> simp [Except.map]

theorem bind_eq_ok_iff {next : α → Except ε β} {value : β} :
    (result >>= next) = .ok value ↔ ∃ found, result = .ok found ∧ next found = .ok value := by
  cases result <;> simp [bind, Except.bind]

theorem bind_pure_eq_error_iff {change : α → β} {fault : ε} :
    (result >>= fun value => pure (change value)) = .error fault ↔ result = .error fault := by
  cases result <;> simp [bind, Except.bind, pure, Except.pure]

theorem map_eq_error_iff {change : α → β} {fault : ε} :
    result.map change = .error fault ↔ result = .error fault := by
  cases result <;> simp [Except.map]

theorem toOption_eq_some_iff {value : α} : result.toOption = some value ↔ result = .ok value := by
  cases result <;> simp [Except.toOption]

theorem exists_error_iff : (∃ fault, result = .error fault) ↔ ¬∃ value, result = .ok value := by
  cases result <;> simp

end Results

section Attempts

variable {ε α β γ : Type} {work : α → Except ε β} {items : List α}

/-- A list is worked off when the work on every item succeeds. -/
theorem mapM_eq_ok_iff {results : List β} :
    items.mapM work = .ok results ↔
      List.Forall₂ (fun item result => work item = .ok result) items results := by
  induction items generalizing results with
  | nil =>
      rw [List.mapM_nil, List.forall₂_nil_left_iff]
      exact ⟨fun same => (Except.ok.inj same).symm, fun same => same ▸ rfl⟩
  | cons item rest ih =>
      rw [List.mapM_cons, bind_eq_ok_iff, List.forall₂_cons_left_iff]
      simp only [bind_eq_ok_iff, ih]
      constructor
      · rintro ⟨result, done, others, later, ⟨⟩⟩
        exact ⟨result, others, done, later, rfl⟩
      · rintro ⟨result, others, done, later, rfl⟩
        exact ⟨result, done, others, later, rfl⟩

/-- The first item on which the work fails decides how it fails. -/
theorem mapM_eq_error_iff {fault : ε} :
    items.mapM work = .error fault ↔
      ∃ before item after, items = before ++ item :: after ∧
        (∀ known ∈ before, ∃ result, work known = .ok result) ∧ work item = .error fault := by
  induction items with
  | nil => simp [pure, Except.pure]
  | cons first rest ih =>
      rw [List.mapM_cons]
      cases done : work first with
      | error cause =>
          constructor
          · rintro ⟨⟩
            exact ⟨[], first, rest, rfl, List.forall_mem_nil _, done⟩
          · rintro ⟨before, item, after, split, earlier, failed⟩
            rcases List.cons_eq_append_iff.mp split with ⟨rfl, same⟩ | ⟨others, rfl, _⟩
            · cases same
              cases done.symm.trans failed
              rfl
            · obtain ⟨result, succeeded⟩ := earlier first List.mem_cons_self
              cases done.symm.trans succeeded
      | ok result =>
          have onward : (do
              let results ← rest.mapM work
              pure (result :: results)) = .error fault ↔ rest.mapM work = .error fault := by
            cases rest.mapM work <;> simp [bind, Except.bind, pure, Except.pure]
          refine onward.trans (ih.trans ⟨?_, ?_⟩)
          · rintro ⟨before, item, after, rfl, earlier, failed⟩
            refine ⟨first :: before, item, after, rfl, ?_, failed⟩
            exact List.forall_mem_cons.mpr ⟨⟨result, done⟩, earlier⟩
          · rintro ⟨before, item, after, split, earlier, failed⟩
            rcases List.cons_eq_append_iff.mp split with ⟨rfl, same⟩ | ⟨others, rfl, rfl⟩
            · cases same
              cases done.symm.trans failed
            · exact ⟨others, item, after, rfl, (List.forall_mem_cons.mp earlier).2, failed⟩

theorem mapM_eq_error_iff_getElem? {fault : ε} :
    items.mapM work = .error fault ↔
      ∃ (position : Nat) (item : α), items[position]? = some item ∧ work item = .error fault ∧
        ∀ (earlier : Nat) (other : α), earlier < position → items[earlier]? = some other →
          ∃ result, work other = .ok result := by
  rw [mapM_eq_error_iff]
  constructor
  · rintro ⟨before, item, after, rfl, done, failed⟩
    refine ⟨before.length, item, by simp, failed, fun earlier other sooner found => ?_⟩
    rw [List.getElem?_append_left sooner] at found
    exact done other (List.mem_of_getElem? found)
  · rintro ⟨position, item, found, failed, done⟩
    refine ⟨items.take position, item, items.drop (position + 1), ?_, ?_, failed⟩
    · obtain ⟨inside, rfl⟩ := List.getElem?_eq_some_iff.mp found
      rw [List.getElem_cons_drop, List.take_append_drop]
    · intro known member
      obtain ⟨earlier, inside, rfl⟩ := List.mem_take_iff_getElem.mp member
      exact done earlier _ (by omega) (List.getElem?_eq_getElem _)

theorem exists_mapM_eq_ok (succeeds : ∀ item ∈ items, ∃ result, work item = .ok result) :
    ∃ results, items.mapM work = .ok results := by
  cases done : items.mapM work with
  | ok results => exact ⟨results, rfl⟩
  | error fault =>
      obtain ⟨before, item, after, rfl, _, failed⟩ := mapM_eq_error_iff.mp done
      obtain ⟨result, succeeded⟩ := succeeds item (by simp)
      cases failed.symm.trans succeeded

theorem exists_eq_ok_of_mapM {results : List β} (done : items.mapM work = .ok results) :
    ∀ item ∈ items, ∃ result, work item = .ok result := by
  have paired := mapM_eq_ok_iff.mp done
  clear done
  induction paired with
  | nil => exact List.forall_mem_nil _
  | cons first _ ih => exact List.forall_mem_cons.mpr ⟨⟨_, first⟩, ih⟩

theorem exists_mapM_eq_error_iff : (∃ fault, items.mapM work = .error fault) ↔
    ∃ item ∈ items, ∃ fault, work item = .error fault := by
  constructor
  · rintro ⟨fault, failed⟩
    obtain ⟨before, item, after, rfl, _, failed⟩ := mapM_eq_error_iff.mp failed
    exact ⟨item, by simp, fault, failed⟩
  · rintro ⟨item, member, fault, failed⟩
    refine exists_error_iff.mpr ?_
    rintro ⟨results, done⟩
    obtain ⟨result, succeeded⟩ := exists_eq_ok_of_mapM done item member
    cases failed.symm.trans succeeded

theorem mapM_congr_of_mem {other : α → Except ε β}
    (same : ∀ item ∈ items, work item = other item) : items.mapM work = items.mapM other := by
  induction items with
  | nil => rfl
  | cons item rest ih =>
      obtain ⟨first, later⟩ := List.forall_mem_cons.mp same
      rw [List.mapM_cons, List.mapM_cons, first, ih later]

theorem mapM_flatMap (items : List α) (parts : α → List γ) (work : γ → Except ε β) :
    (items.flatMap parts).mapM work =
      (items.mapM fun item => (parts item).mapM work).map List.flatten := by
  induction items with
  | nil => rfl
  | cons item rest ih =>
      rw [List.flatMap_cons, List.mapM_append, List.mapM_cons, ih]
      cases (parts item).mapM work with
      | error => rfl
      | ok first => cases rest.mapM fun item => (parts item).mapM work <;> rfl

end Attempts

end MessageCatalog
