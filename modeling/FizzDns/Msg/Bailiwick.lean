import FizzDns.Msg.Name

/-!
# Bailiwick as an order

`dns_name_in_bailiwick` compares the characters at the end of a name and asks for one dot in front
of them. On dotted names this is the order of label sequences by suffix: a name lies in a zone when
the labels of the zone are its last labels, whatever the case of their letters.

The order laws are proved for all texts, because a name decoded from a message need not be dotted:
a label may contain a dot, and a test that only held for dotted names would say nothing of it.
-/

namespace FizzDns

/-! ## Splitting at a separator -/

section Split

variable {α : Type*} [DecidableEq α] {sep : α}

/-- A map that keeps the separator apart maps the pieces. -/
theorem splitOn_map {f : α → α} (keeps : ∀ x, f x = sep ↔ x = sep) (text : List α) :
    (text.map f).splitOn sep = (text.splitOn sep).map (List.map f) := by
  simp only [List.splitOn_eq_splitOnP]
  induction text with
  | nil => simp
  | cons head tail ih =>
      rw [List.map_cons, List.splitOnP_cons_eq_if_modifyHead,
        List.splitOnP_cons_eq_if_modifyHead, ih]
      by_cases cut : head = sep
      · simp [cut, (keeps sep).mpr rfl]
      · have kept : f head ≠ sep := fun same => cut ((keeps head).mp same)
        cases List.splitOnP (· == sep) tail <;> simp [cut, kept]

/-- Joining a nonempty list of pieces with another puts one separator between them. -/
theorem intercalate_append_splitOn {pieces : List (List α)} (nonempty : pieces ≠ [])
    (text : List α) :
    [sep].intercalate (pieces ++ text.splitOn sep) = [sep].intercalate pieces ++ sep :: text := by
  induction pieces with
  | nil => exact (nonempty rfl).elim
  | cons first others ih =>
      cases others with
      | nil =>
          obtain ⟨piece, rest, split⟩ := List.exists_cons_of_ne_nil (List.splitOn_ne_nil sep text)
          have whole : [sep].intercalate (text.splitOn sep) = text := List.intercalate_splitOn sep
          rw [split] at whole ⊢
          simpa [List.intercalate] using whole
      | cons second others =>
          have tail := ih (List.cons_ne_nil _ _)
          simp only [List.intercalate, List.cons_append, List.intersperse_cons_cons,
            List.flatten_cons] at tail ⊢
          rw [tail]
          simp

/-- The pieces of one text are the last pieces of another when the texts are equal, or the first
ends the other behind a separator. -/
theorem splitOn_suffix_iff (text whole : List α) :
    text.splitOn sep <:+ whole.splitOn sep ↔
      whole = text ∨ ∃ front, whole = front ++ sep :: text := by
  have joined : ∀ other : List α, [sep].intercalate (other.splitOn sep) = other :=
    fun other => List.intercalate_splitOn sep
  constructor
  · rintro ⟨pieces, split⟩
    by_cases none : pieces = []
    · left
      rw [none, List.nil_append] at split
      rw [← joined whole, ← split, joined]
    · right
      refine ⟨[sep].intercalate pieces, ?_⟩
      rw [← intercalate_append_splitOn none, split, joined]
  · rintro (rfl | ⟨front, rfl⟩)
    · exact List.suffix_rfl
    · rw [List.splitOn_append_cons_self]
      exact List.suffix_append _ _

end Split

/-! ## Labels -/

/-- The labels of a dotted name: those between the dots, and none for the root. -/
def labelsOf (name : Bytes) : List Bytes :=
  if name = [] then [] else name.splitOn 46

/-- A dotted name: no label is empty, so no dot stands at the end or beside another. The root is
the empty string. -/
structure DottedName extends CString where
  labelled : [] ∉ labelsOf chars

/-- The labels of a name as they are compared, their letters in lower case. -/
def DottedName.labels (name : DottedName) : List Bytes :=
  (labelsOf name.chars).map foldCase

/-- Folding the case of a name folds that of its labels. -/
theorem labelsOf_foldCase (name : Bytes) :
    labelsOf (foldCase name) = (labelsOf name).map foldCase := by
  unfold labelsOf
  by_cases top : name = []
  · simp [top]
  · rw [if_neg top, if_neg (mt (foldCase_eq_nil name).mp top)]
    exact splitOn_map tolower_eq_dot name

/-- Only the root has no label. -/
theorem labelsOf_eq_nil (name : Bytes) : labelsOf name = [] ↔ name = [] := by
  unfold labelsOf
  by_cases top : name = []
  · simp [top]
  · simp [top, List.splitOn_ne_nil]

/-- The labels of a zone end those of a dotted name when the zone is the root, the name, or what
follows a dot behind at least one character of the name. -/
theorem labelsOf_suffix_iff {name : Bytes} (zone : Bytes) (labelled : [] ∉ labelsOf name) :
    labelsOf zone <:+ labelsOf name ↔
      zone = [] ∨ name = zone ∨ ∃ front, front ≠ [] ∧ name = front ++ 46 :: zone := by
  by_cases top : zone = []
  · simp [top, labelsOf]
  by_cases below : name = []
  · have apart : [] ≠ zone := fun same => top same.symm
    rw [below, (labelsOf_eq_nil []).mpr rfl, List.suffix_nil, labelsOf_eq_nil]
    simp [top, apart]
  simp only [labelsOf, top, below, ↓reduceIte, false_or, splitOn_suffix_iff]
  apply or_congr_right
  constructor
  · rintro ⟨front, rfl⟩
    refine ⟨front, ?_, rfl⟩
    -- a dot in first position would leave an empty first label
    rintro rfl
    apply labelled
    rw [labelsOf, if_neg below, List.splitOn_append_cons_self]
    exact List.mem_append_left _ (List.mem_singleton_self _)
  · rintro ⟨front, _, equal⟩
    exact ⟨front, equal⟩

namespace DottedName

/-- The labels of a name are those of its folded text. -/
theorem labels_eq (name : DottedName) : name.labels = labelsOf (foldCase name.chars) :=
  (labelsOf_foldCase name.chars).symm

/-- Case folding leaves no label empty. -/
theorem labelled_foldCase (name : DottedName) : [] ∉ labelsOf (foldCase name.chars) := by
  rw [labelsOf_foldCase]
  intro empty
  obtain ⟨label, member, folded⟩ := List.mem_map.mp empty
  rw [(foldCase_eq_nil label).mp folded] at member
  exact name.labelled member

end DottedName

/-! ## The order -/

/-- The test on the folded texts: the zone is the root, the name, or follows a dot in it. -/
theorem dnsNameInBailiwick_iff_folded (name zone : Bytes) :
    dnsNameInBailiwick name zone = true ↔
      foldCase zone = [] ∨ foldCase name = foldCase zone ∨
        ∃ front, front ≠ [] ∧ foldCase name = front ++ 46 :: foldCase zone := by
  have folded := @dnsNameInBailiwick_congr name (foldCase name) zone (foldCase zone)
    (foldCase_foldCase name).symm (foldCase_foldCase zone).symm
  rw [folded, dnsNameInBailiwick_iff, foldCase_foldCase, foldCase_foldCase]
  apply or_congr_right
  apply or_congr_right
  constructor
  · rintro ⟨front, rest, nonempty, split, same⟩
    refine ⟨front, nonempty, ?_⟩
    have lower : foldCase rest = rest := by
      have every := (foldCase_eq_self_iff (foldCase name)).mp (foldCase_foldCase name)
      rw [split] at every
      exact (foldCase_eq_self_iff rest).mpr fun byte member => every byte (by simp [member])
    rw [split, ← same, lower]
  · rintro ⟨front, nonempty, split⟩
    exact ⟨front, foldCase zone, nonempty, split, foldCase_foldCase zone⟩

/-- A name lies in its own bailiwick. -/
theorem dnsNameInBailiwick_refl (name : Bytes) : dnsNameInBailiwick name name = true :=
  (dnsNameInBailiwick_iff_folded name name).mpr (Or.inr (Or.inl rfl))

/-- What lies in a zone lies in every zone above it. -/
theorem dnsNameInBailiwick_trans {name zone apex : Bytes}
    (inner : dnsNameInBailiwick name zone = true) (outer : dnsNameInBailiwick zone apex = true) :
    dnsNameInBailiwick name apex = true := by
  rw [dnsNameInBailiwick_iff_folded] at inner outer ⊢
  rcases outer with top | same | ⟨front, nonempty, split⟩
  · exact Or.inl top
  · rwa [same] at inner
  · right
    rcases inner with empty | same | ⟨front', nonempty', split'⟩
    · rw [empty] at split
      exact absurd split (by simp)
    · exact Or.inr ⟨front, nonempty, same.trans split⟩
    · refine Or.inr ⟨front' ++ 46 :: front, by simp, ?_⟩
      rw [split', split]
      simp

/-- Two names that lie in each other's bailiwick are equal up to case. -/
theorem dnsNameInBailiwick_antisymm {name zone : Bytes}
    (down : dnsNameInBailiwick name zone = true) (up : dnsNameInBailiwick zone name = true) :
    dnsNameEqual name zone = true := by
  rw [dnsNameInBailiwick_iff_folded] at down up
  rw [dnsNameEqual_iff]
  rcases down with top | same | ⟨front, _, split⟩
  · rw [top] at up ⊢
    rcases up with empty | same | ⟨front, _, split⟩
    · exact empty
    · exact same.symm
    · exact absurd split (by simp)
  · exact same
  · rcases up with top | same | ⟨front', _, split'⟩
    · rw [top] at split
      exact absurd split (by simp)
    · exact same.symm
    · -- each text would be longer than the other
      have shorter := congrArg List.length split
      have longer := congrArg List.length split'
      simp only [List.length_append, List.length_cons] at shorter longer
      omega

/-- **Bailiwick is label-suffix order.** A dotted name lies in a zone exactly when the labels of the
zone are the last labels of the name, letters compared without regard to case. The relation is
reflexive, transitive and, up to `dns_name_equal`, antisymmetric. -/
theorem dnsNameInBailiwick_suffix_order (name zone apex : DottedName) :
    (dnsNameInBailiwick name.chars zone.chars = true ↔ zone.labels <:+ name.labels) ∧
    dnsNameInBailiwick name.chars name.chars = true ∧
    (dnsNameInBailiwick name.chars zone.chars = true →
      dnsNameInBailiwick zone.chars apex.chars = true →
        dnsNameInBailiwick name.chars apex.chars = true) ∧
    (dnsNameInBailiwick name.chars zone.chars = true →
      dnsNameInBailiwick zone.chars name.chars = true →
        dnsNameEqual name.chars zone.chars = true) := by
  refine ⟨?_, dnsNameInBailiwick_refl _, dnsNameInBailiwick_trans, dnsNameInBailiwick_antisymm⟩
  rw [dnsNameInBailiwick_iff_folded, zone.labels_eq, name.labels_eq,
    labelsOf_suffix_iff _ name.labelled_foldCase]

/-- The characters of `a.c` end `ba.c`, but not behind a dot. -/
example : dnsNameInBailiwick [98, 97, 46, 99] [97, 46, 99] = false := by decide

end FizzDns
