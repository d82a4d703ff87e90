import Mathlib.Data.List.Basic

/-!
# Paths as text

A path is split into names at separators. Names that stand for nothing, for the directory
itself and for its parent are removed; what is left is where the path leads, as far as the text
says.
-/
namespace PathText

section Splitting

variable {α : Type*} {sep : α}

theorem splitOnP_intercalate {p : α → Bool} (hsep : p sep = true) {names : List (List α)}
    (hnames : ∀ name ∈ names, ∀ x ∈ name, p x = false) (hne : names ≠ []) :
    ([sep].intercalate names).splitOnP p = names := by
  induction names with
  | nil => exact absurd rfl hne
  | cons name rest ih =>
    obtain ⟨hname, hrest⟩ := List.forall_mem_cons.mp hnames
    cases rest with
    | nil => simpa using List.splitOnP_eq_singleton hname
    | cons next rest =>
      rw [List.intercalate_cons_cons, List.append_assoc, List.singleton_append,
        List.splitOnP_append_cons_of_forall_mem hname sep hsep, ih hrest (List.cons_ne_nil _ _)]

theorem intercalate_append {front back : List (List α)} (hfront : front ≠ []) (hback : back ≠ []) :
    [sep].intercalate (front ++ back) = [sep].intercalate front ++ sep :: [sep].intercalate back := by
  induction front with
  | nil => exact absurd rfl hfront
  | cons name rest ih =>
    cases rest with
    | nil =>
      rw [List.singleton_append, List.intercalate_cons_of_ne_nil hback, List.intercalate_singleton,
        List.append_assoc, List.singleton_append]
    | cons next rest =>
      rw [List.cons_append, List.cons_append, List.intercalate_cons_cons, List.intercalate_cons_cons,
        ← List.cons_append, ih (List.cons_ne_nil _ _)]
      simp only [List.append_assoc]

/-- A text is another one, or goes on after it with a separator, exactly if its names go on
after the names of the other. -/
theorem extends_iff [BEq α] [LawfulBEq α] {text base : List α} :
    text = base ∨ base ++ [sep] <+: text ↔ base.splitOn sep <+: text.splitOn sep := by
  constructor
  · rintro (rfl | ⟨rest, rfl⟩)
    · exact List.prefix_rfl
    · rw [List.append_assoc, List.singleton_append, List.splitOn_append_cons_self]
      exact List.prefix_append _ _
  · rintro ⟨rest, hrest⟩
    have htext : [sep].intercalate (base.splitOn sep ++ rest) = text := by
      rw [hrest, List.intercalate_splitOn]
    cases rest with
    | nil =>
      rw [List.append_nil, List.intercalate_splitOn] at htext
      exact .inl htext.symm
    | cons name rest =>
      rw [intercalate_append (List.splitOn_ne_nil _ _) (List.cons_ne_nil _ _), List.intercalate_splitOn]
        at htext
      exact .inr ⟨[sep].intercalate (name :: rest), by rw [← htext, List.append_assoc, List.singleton_append]⟩

theorem forall_of_mem_splitOnP {p : α → Bool} {text name : List α} (h : name ∈ text.splitOnP p) :
    ∀ x ∈ name, p x = false := by
  induction text generalizing name with
  | nil =>
    rw [List.splitOnP_nil, List.mem_singleton] at h
    simp [h]
  | cons y text ih =>
    rw [List.splitOnP_cons_eq_if_modifyHead] at h
    split at h
    · rcases List.mem_cons.mp h with rfl | hrest
      · simp
      · exact ih hrest
    next hy =>
      cases hsplit : text.splitOnP p with
      | nil => exact absurd hsplit (List.splitOnP_ne_nil p text)
      | cons first rest =>
        rw [hsplit] at h ih
        rcases List.mem_cons.mp h with rfl | hrest
        · exact List.forall_mem_cons.mpr ⟨Bool.eq_false_iff.mpr hy, ih List.mem_cons_self⟩
        · exact ih (List.mem_cons_of_mem _ hrest)

end Splitting

/-! ### Dot names -/

abbrev Name := List Char

def push (dir : List Name) (name : Name) : List Name :=
  if name = [] ∨ name = ['.'] then dir else if name = ['.', '.'] then dir.dropLast else dir ++ [name]

/-- Where a path leads from a root, which is its own parent. -/
def clean (names : List Name) : List Name := names.foldl push []

def Normal (name : Name) : Prop := name ≠ [] ∧ name ≠ ['.'] ∧ name ≠ ['.', '.']

variable {names dir : List Name} {name : Name}

theorem push_normal (h : Normal name) : push dir name = dir ++ [name] := by
  rw [push, if_neg (by simp [h.1, h.2.1]), if_neg h.2.2]

theorem foldl_push_normal (h : ∀ name ∈ names, Normal name) : names.foldl push dir = dir ++ names := by
  induction names generalizing dir with
  | nil => simp
  | cons name rest ih =>
    obtain ⟨hname, hrest⟩ := List.forall_mem_cons.mp h
    rw [List.foldl_cons, push_normal hname, ih hrest, List.append_assoc, List.singleton_append]

theorem clean_normal (h : ∀ name ∈ names, Normal name) : clean names = names := foldl_push_normal h

@[simp] theorem clean_nil_cons : clean ([] :: names) = clean names := rfl

/-- What is left of a path are names of it, none of them a dot name. -/
theorem mem_foldl_push (hdir : ∀ name ∈ dir, Normal name) (h : name ∈ names.foldl push dir) :
    (name ∈ dir ∨ name ∈ names) ∧ Normal name := by
  induction names generalizing dir with
  | nil => exact ⟨.inl h, hdir name h⟩
  | cons first rest ih =>
    have hpush : ∀ other ∈ push dir first, (other ∈ dir ∨ other = first) ∧ Normal other := by
      intro other hother
      unfold push at hother
      split at hother
      · exact ⟨.inl hother, hdir other hother⟩
      next hsome =>
      split at hother
      · have hmem := List.dropLast_subset _ hother
        exact ⟨.inl hmem, hdir other hmem⟩
      next hup =>
        rcases List.mem_append.mp hother with hmem | hlast
        · exact ⟨.inl hmem, hdir other hmem⟩
        · obtain rfl := List.mem_singleton.mp hlast
          rw [not_or] at hsome
          exact ⟨.inr rfl, hsome.1, hsome.2, hup⟩
    obtain ⟨hwhere, hnormal⟩ := ih (fun other hother => (hpush other hother).2) h
    refine ⟨?_, hnormal⟩
    rcases hwhere with hin | hin
    · rcases (hpush name hin).1 with hold | rfl
      · exact .inl hold
      · exact .inr List.mem_cons_self
    · exact .inr (List.mem_cons_of_mem _ hin)

theorem mem_clean (h : name ∈ clean names) : name ∈ names ∧ Normal name := by
  obtain ⟨hwhere, hnormal⟩ := mem_foldl_push (by simp) h
  exact ⟨hwhere.resolve_left List.not_mem_nil, hnormal⟩

end PathText
