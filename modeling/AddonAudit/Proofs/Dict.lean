import AddonAudit.Dict

/-!
# Laws of dictionaries

A dictionary whose keys increase strictly is determined by what is found in it. The operations keep
the order, and each of them changes what is found under its own key only.
-/

namespace AddonAudit.Dict

variable {α : Type} {d e : Dict α} {key k : String} {f : Option α → α}

/-- The keys increase strictly. -/
def Sorted (d : Dict α) : Prop :=
  d.Pairwise fun a b => a.1 < b.1

theorem sorted_nil : Sorted ([] : Dict α) := .nil

@[simp] theorem find?_nil : find? key ([] : Dict α) = none := rfl

@[simp] theorem find?_cons (entry : String × α) :
    find? key (entry :: d) = if entry.1 = key then some entry.2 else find? key d := rfl

theorem alter_nil : alter key f [] = [(key, f none)] := rfl

theorem alter_cons (entry : String × α) :
    alter key f (entry :: d) =
      if entry.1 = key then (entry.1, f (some entry.2)) :: d
      else if key < entry.1 then (key, f none) :: entry :: d
      else entry :: alter key f d := rfl

/-- What stands in a dictionary is found in it. -/
theorem find?_eq_some_iff (h : Sorted d) {v : α} : d.find? key = some v ↔ (key, v) ∈ d := by
  induction h with
  | nil => simp
  | @cons entry rest below _ ih =>
      obtain ⟨k, w⟩ := entry
      by_cases same : k = key
      · subst same
        have absent : (k, v) ∉ rest := fun mem => String.lt_irrefl k (below _ mem)
        simp [absent, eq_comm]
      · simp [same, Ne.symm same, ih]

theorem find?_eq_none_of_lt (h : ∀ entry ∈ d, key < entry.1) : d.find? key = none := by
  induction d with
  | nil => rfl
  | cons entry rest ih =>
      have ne : entry.1 ≠ key := fun same => String.lt_irrefl key (same ▸ h entry (by simp))
      rw [find?_cons, if_neg ne]
      exact ih fun entry mem => h entry (by simp [mem])

/-- Two sorted dictionaries in which the same is found are equal. -/
theorem Sorted.ext (hd : Sorted d) (he : Sorted e) (same : ∀ key, d.find? key = e.find? key) :
    d = e := by
  induction hd generalizing e with
  | nil =>
      cases e with
      | nil => rfl
      | cons entry rest => simpa using same entry.1
  | @cons entry rest below sorted ih =>
      cases he with
      | nil => simpa using same entry.1
      | @cons other tail above sorted' =>
          have lower : find? entry.1 rest = none := find?_eq_none_of_lt below
          have upper : find? other.1 tail = none := find?_eq_none_of_lt above
          -- The first keys agree: each is found on the other side, so neither is the lower one.
          have key : entry.1 = other.1 := by
            apply Classical.byContradiction
            intro ne
            have left := same entry.1
            have right := same other.1
            simp only [find?_cons, if_pos, if_neg ne, if_neg (Ne.symm ne)] at left right
            have mem := (find?_eq_some_iff sorted').1 left.symm
            have mem' := (find?_eq_some_iff sorted).1 right
            exact String.lt_asymm (above _ mem) (below _ mem')
          have value : entry.2 = other.2 := by
            have found := same entry.1
            simpa [key] using found
          have tails : rest = tail := by
            apply ih sorted'
            intro k
            by_cases first : entry.1 = k
            · rw [← first, lower, key, upper]
            · have found := same k
              rwa [find?_cons, find?_cons, if_neg first, if_neg (key ▸ first)] at found
          rw [tails, Prod.ext key value]

theorem forall_alter {p : String → Prop} (hd : ∀ entry ∈ d, p entry.1) (hk : p key) :
    ∀ entry ∈ d.alter key f, p entry.1 := by
  induction d with
  | nil => simpa [alter_nil] using hk
  | cons entry rest ih =>
      have first := hd entry (by simp)
      have others := fun e mem => hd e (List.mem_cons_of_mem entry mem)
      rw [alter_cons]
      split
      · intro e mem
        rcases List.mem_cons.1 mem with rfl | mem
        · exact first
        · exact others e mem
      · split
        · intro e mem
          rcases List.mem_cons.1 mem with rfl | mem
          · exact hk
          · exact hd e mem
        · intro e mem
          rcases List.mem_cons.1 mem with rfl | mem
          · exact first
          · exact ih others e mem

theorem Sorted.alter (h : Sorted d) : Sorted (d.alter key f) := by
  induction h with
  | nil => exact List.pairwise_singleton ..
  | @cons entry rest below sorted ih =>
      rw [alter_cons]
      split
      · exact .cons below sorted
      next ne =>
        split
        next lt =>
          refine .cons ?_ (.cons below sorted)
          intro e mem
          rcases List.mem_cons.1 mem with rfl | mem
          · exact lt
          · exact String.lt_trans lt (below e mem)
        next ge =>
          have lt : entry.1 < key := by
            apply Classical.byContradiction
            intro ge'
            exact ne (String.le_antisymm (String.not_lt.1 ge) (String.not_lt.1 ge'))
          exact .cons (forall_alter below lt) ih

theorem Sorted.insert (h : Sorted d) (v : α) : Sorted (Dict.insert key v d) := h.alter

theorem Sorted.erase (h : Sorted d) : Sorted (d.erase key) := h.filter _

theorem find?_alter_self (h : Sorted d) :
    (d.alter key f).find? key = some (f (d.find? key)) := by
  induction h with
  | nil => simp [alter_nil]
  | @cons entry rest below sorted ih =>
      rw [alter_cons]
      split
      next same => simp [same]
      next ne =>
        split
        next lt =>
          have absent : find? key rest = none :=
            find?_eq_none_of_lt fun e mem => String.lt_trans lt (below e mem)
          simp [ne, absent]
        · simpa [ne] using ih

theorem find?_alter_of_ne (ne : key ≠ k) : (d.alter key f).find? k = d.find? k := by
  induction d with
  | nil => simp [alter_nil, ne]
  | cons entry rest ih =>
      rw [alter_cons]
      split
      next same => simp [same, ne]
      · split
        · rw [find?_cons, if_neg ne]
        · simp [ih]

/-- Even out of order, what is found under an altered key was made from what was found there or from
nothing. -/
theorem find?_alter_self_cases (d : Dict α) (key : String) (f : Option α → α) :
    (d.alter key f).find? key = some (f none) ∨
      (d.alter key f).find? key = some (f (d.find? key)) := by
  induction d with
  | nil => exact .inl (by simp [alter_nil])
  | cons entry rest ih =>
      rw [alter_cons]
      split
      next same => exact .inr (by simp [same])
      next ne =>
        split
        · exact .inl (by simp)
        · simpa [ne] using ih

theorem find?_insert (d : Dict α) (key k : String) (v : α) :
    (Dict.insert key v d).find? k = if key = k then some v else d.find? k := by
  split
  next same =>
    subst same
    rcases find?_alter_self_cases d key fun _ => v with found | found <;> exact found
  next ne => exact find?_alter_of_ne ne

theorem find?_insert_self (h : Sorted d) (v : α) : (Dict.insert key v d).find? key = some v :=
  find?_alter_self h

theorem find?_insert_of_ne (ne : key ≠ k) (v : α) : (Dict.insert key v d).find? k = d.find? k :=
  find?_alter_of_ne ne

theorem find?_erase_self : (d.erase key).find? key = none := by
  induction d with
  | nil => rfl
  | cons entry rest ih =>
      by_cases same : entry.1 = key <;> simp_all [erase]

theorem find?_erase_of_ne (ne : key ≠ k) : (d.erase key).find? k = d.find? k := by
  induction d with
  | nil => rfl
  | cons entry rest ih =>
      by_cases same : entry.1 = key <;> simp_all [erase]

end AddonAudit.Dict
