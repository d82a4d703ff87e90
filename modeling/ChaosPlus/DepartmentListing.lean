import ChaosPlus.DepartmentService
import ChaosPlus.ParentForest

/-!
# The listing of a tenant's departments

The departments are listed by a descent from the roots that marks what it has listed. A row that
no root reaches is missed, and the listing is refused because it is too short; otherwise the
listing is the forest of the parent links in preorder.
-/
namespace DepartmentListing

open DepartmentService DepartmentStore ParentForest

/-- The departments of one tenant: the key keeps their ids apart, and no id is empty. -/
structure DepartmentSet where
  rows : List DepartmentRow
  distinct : (rows.map DepartmentRow.id).Nodup
  named : ∀ row ∈ rows, row.id ≠ ""

/-- The order of siblings. -/
def siblingLE (left right : DepartmentRow) : Bool :=
  if left.sortOrder ≠ right.sortOrder then left.sortOrder < right.sortOrder
  else if left.nameKey ≠ right.nameKey then left.nameKey < right.nameKey
  else left.id ≤ right.id

def children (rows : List DepartmentRow) (parentID : String) : List DepartmentRow :=
  (rows.filter fun row => row.parentID = parentID).mergeSort siblingLE

structure Listing where
  visited : List String := []
  result : List Department := []

/-- The descent below a parent; every call marks another row, which bounds the calls. -/
def visit (rows : List DepartmentRow) : Nat → String → Nat → Listing → Listing
  | 0, _, _, listing => listing
  | fuel + 1, parentID, depth, listing =>
    (children rows parentID).foldl (fun (listing : Listing) row =>
      if listing.visited.contains row.id then listing
      else visit rows fuel row.id (depth + 1)
        ⟨row.id :: listing.visited, listing.result ++ [departmentFromRow row depth]⟩) listing

inductive ListingError where
  | hierarchyCorrupt
  deriving DecidableEq, Repr

def orderDepartments (rows : List DepartmentRow) : Except ListingError (List Department) :=
  let result := (visit rows (rows.length + 1) "" 0 {}).result
  if result.length ≠ rows.length then .error .hierarchyCorrupt else .ok result

/-- The department above, when the tenant has it. -/
def parentOf (rows : List DepartmentRow) (row : DepartmentRow) : Option DepartmentRow :=
  rows.find? fun other => other.id = row.parentID

/-- The row lies so many levels below a root. -/
def AtDepth (rows : List DepartmentRow) (n : Nat) (row : DepartmentRow) : Prop :=
  ∃ root, climb (parentOf rows) n row = some root ∧ root.parentID = ""

/-- The listing of the given siblings in preorder: each of them, then its children's listing. -/
inductive Preorder (rows : List DepartmentRow) :
    Nat → List DepartmentRow → List (DepartmentRow × Nat) → Prop where
  | nil (depth : Nat) : Preorder rows depth [] []
  | cons {depth : Nat} {row : DepartmentRow} {siblings : List DepartmentRow}
      {below others : List (DepartmentRow × Nat)}
      (hbelow : Preorder rows (depth + 1) (children rows row.id) below)
      (hothers : Preorder rows depth siblings others) :
      Preorder rows depth (row :: siblings) ((row, depth) :: (below ++ others))

section Forest

variable {set : DepartmentSet} {rows : List DepartmentRow} {n m depth : Nat} {row other : DepartmentRow}

theorem mem_children {parentID : String} : row ∈ children rows parentID ↔ row ∈ rows ∧ row.parentID = parentID := by
  simp [children]

theorem eq_of_id (hrow : row ∈ set.rows) (hother : other ∈ set.rows) (h : row.id = other.id) : row = other :=
  List.inj_on_of_nodup_map set.distinct hrow hother h

theorem parentOf_eq (hother : other ∈ set.rows) (h : row.parentID = other.id) :
    parentOf set.rows row = some other := by
  have hsome : (parentOf set.rows row).isSome := by
    rw [parentOf, List.find?_isSome]
    exact ⟨other, hother, by simp [h]⟩
  obtain ⟨found, hfound⟩ := Option.isSome_iff_exists.mp hsome
  have hid : found.id = row.parentID := by simpa using List.find?_some hfound
  rw [hfound, eq_of_id (List.mem_of_find?_eq_some hfound) hother (hid.trans h)]

theorem parentOf_root (h : row.parentID = "") : parentOf set.rows row = none := by
  rw [parentOf, List.find?_eq_none]
  intro other hother
  simpa [h] using set.named other hother

theorem parentOf_mem (h : parentOf rows row = some other) : other ∈ rows ∧ other.id = row.parentID :=
  ⟨List.mem_of_find?_eq_some h, by simpa using List.find?_some h⟩

theorem climb_mem (hrow : row ∈ rows) (h : climb (parentOf rows) n row = some other) : other ∈ rows := by
  induction n generalizing row with
  | zero =>
    obtain rfl := Option.some.inj h
    exact hrow
  | succ n ih =>
    obtain ⟨parent, hparent, hclimb⟩ := Option.bind_eq_some_iff.mp h
    exact ih (parentOf_mem hparent).1 hclimb

/-- A row lies at one depth. -/
theorem AtDepth.unique (h : AtDepth set.rows n row) (k : AtDepth set.rows m row) : n = m := by
  have hle {a b : Nat} (h : AtDepth set.rows a row) (k : AtDepth set.rows b row) : b ≤ a := by
    by_contra hlt
    obtain ⟨root, hroot, hempty⟩ := h
    obtain ⟨other, hother, -⟩ := k
    have hsum : b = a + (b - a - 1 + 1) := by omega
    rw [hsum, climb_add, hroot, Option.bind_some, climb, parentOf_root hempty] at hother
    cases hother
  exact Nat.le_antisymm (hle k h) (hle h k)

theorem AtDepth.child (hchild : other ∈ children set.rows row.id) (hrow : row ∈ set.rows)
    (h : AtDepth set.rows n row) : AtDepth set.rows (n + 1) other := by
  obtain ⟨root, hroot, hempty⟩ := h
  refine ⟨root, ?_, hempty⟩
  rw [climb, parentOf_eq hrow (mem_children.mp hchild).2]
  exact hroot

theorem AtDepth.above {k : Nat} (h : AtDepth set.rows n row) (hclimb : climb (parentOf set.rows) k row = some other) :
    k ≤ n ∧ AtDepth set.rows (n - k) other := by
  obtain ⟨root, hroot, hempty⟩ := h
  have hle : k ≤ n := by
    by_contra hlt
    have hsum : k = n + (k - n - 1 + 1) := by omega
    rw [hsum, climb_add, hroot, Option.bind_some, climb, parentOf_root hempty] at hclimb
    cases hclimb
  refine ⟨hle, root, ?_, hempty⟩
  rw [show n = k + (n - k) by omega, climb_add, hclimb] at hroot
  simpa using hroot

/-- The rows on the way to the root are different rows of the tenant. -/
theorem AtDepth.lt_length (hrow : row ∈ set.rows) (h : AtDepth set.rows n row) : n < set.rows.length := by
  let way (k : Nat) : DepartmentRow := (climb (parentOf set.rows) k row).getD row
  have hway : ∀ k, k ≤ n → climb (parentOf set.rows) k row = some (way k) := by
    intro k hk
    cases hclimb : climb (parentOf set.rows) k row with
    | none =>
      obtain ⟨root, hroot, -⟩ := h
      rw [climb_eq_none_of_le hclimb hk] at hroot
      cases hroot
    | some ancestor => simp [way, hclimb]
  have hnodup : ((List.range (n + 1)).map way).Nodup := by
    refine List.Nodup.map_on (fun k hk l hl heq => ?_) List.nodup_range
    have hk' : k ≤ n := by simpa [Nat.lt_succ_iff] using hk
    have hl' : l ≤ n := by simpa [Nat.lt_succ_iff] using hl
    have hdepth := (h.above (hway k hk')).2
    rw [heq] at hdepth
    have hsame := hdepth.unique (h.above (hway l hl')).2
    omega
  have hsub : (List.range (n + 1)).map way ⊆ set.rows := by
    intro ancestor hancestor
    obtain ⟨k, hk, rfl⟩ := List.mem_map.mp hancestor
    exact climb_mem hrow (hway k (by simpa [Nat.lt_succ_iff] using hk))
  have hlength := (List.subperm_of_subset hnodup hsub).length_le
  rw [List.length_map, List.length_range] at hlength
  exact hlength

/-! ## The preorder of the rows that a root reaches -/

theorem exists_preorder (k : Nat) : ∀ {depth : Nat}, set.rows.length ≤ depth + k →
    ∀ {tops : List DepartmentRow}, (∀ row ∈ tops, row ∈ set.rows ∧ AtDepth set.rows depth row) →
      ∃ out, Preorder set.rows depth tops out := by
  induction k with
  | zero =>
    intro depth hlength tops htops
    cases tops with
    | nil => exact ⟨[], .nil depth⟩
    | cons row rest =>
      obtain ⟨hrow, hdepth⟩ := htops row List.mem_cons_self
      have hlt := hdepth.lt_length hrow
      omega
  | succ k ih =>
    intro depth hlength tops htops
    induction tops with
    | nil => exact ⟨[], .nil depth⟩
    | cons row rest ihrest =>
      obtain ⟨hrow, hdepth⟩ := htops row List.mem_cons_self
      obtain ⟨below, hbelow⟩ := @ih (depth + 1) (by omega) (children set.rows row.id) fun child hchild =>
        ⟨(mem_children.mp hchild).1, hdepth.child hchild hrow⟩
      obtain ⟨others, hothers⟩ := ihrest fun other hother => htops other (List.mem_cons_of_mem _ hother)
      exact ⟨_, .cons hbelow hothers⟩

section Listed

variable {tops : List DepartmentRow} {out : List (DepartmentRow × Nat)}

theorem Preorder.top (h : Preorder rows depth tops out) (hrow : row ∈ tops) : (row, depth) ∈ out := by
  induction h with
  | nil => cases hrow
  | cons _ _ _ ih =>
    rcases List.mem_cons.mp hrow with rfl | hrow
    · exact List.mem_cons_self
    · exact List.mem_cons_of_mem _ (List.mem_append_right _ (ih hrow))

/-- With a row its children are listed one level below. -/
theorem Preorder.child (h : Preorder rows depth tops out) (hrow : (row, n) ∈ out)
    (hchild : other ∈ children rows row.id) : (other, n + 1) ∈ out := by
  induction h with
  | nil => cases hrow
  | cons hbelow _ ihbelow ihothers =>
    rcases List.mem_cons.mp hrow with heq | hrow
    · obtain ⟨rfl, rfl⟩ := Prod.mk.inj heq
      exact List.mem_cons_of_mem _ (List.mem_append_left _ (hbelow.top hchild))
    · rcases List.mem_append.mp hrow with hrow | hrow
      · exact List.mem_cons_of_mem _ (List.mem_append_left _ (ihbelow hrow))
      · exact List.mem_cons_of_mem _ (List.mem_append_right _ (ihothers hrow))

/-- The siblings of a level. -/
def Level (set : DepartmentSet) (depth : Nat) (tops : List DepartmentRow) : Prop :=
  ∀ row ∈ tops, row ∈ set.rows ∧ AtDepth set.rows depth row

theorem Level.children (hrow : row ∈ set.rows) (h : AtDepth set.rows depth row) :
    Level set (depth + 1) (children set.rows row.id) :=
  fun _ hchild => ⟨(mem_children.mp hchild).1, h.child hchild hrow⟩

/-- What is listed lies below the siblings, each at its depth. -/
theorem Preorder.climbs (h : Preorder set.rows depth tops out) (htops : Level set depth tops)
    (hrow : (row, n) ∈ out) : row ∈ set.rows ∧ AtDepth set.rows n row ∧ depth ≤ n ∧
      ∃ top ∈ tops, climb (parentOf set.rows) (n - depth) row = some top := by
  induction h with
  | nil => cases hrow
  | @cons depth top siblings below others _ _ ihbelow ihothers =>
    obtain ⟨htop, hdepth⟩ := htops top List.mem_cons_self
    rcases List.mem_cons.mp hrow with heq | hrow
    · obtain ⟨rfl, rfl⟩ := Prod.mk.inj heq
      exact ⟨htop, hdepth, Nat.le_refl _, row, List.mem_cons_self, by rw [Nat.sub_self]; rfl⟩
    · rcases List.mem_append.mp hrow with hrow | hrow
      · obtain ⟨hmem, hat, hle, child, hchild, hclimb⟩ := ihbelow (.children htop hdepth) hrow
        refine ⟨hmem, hat, by omega, top, List.mem_cons_self, ?_⟩
        rw [show n - depth = n - (depth + 1) + 1 by omega, climb_add, hclimb, Option.bind_some, climb,
          parentOf_eq htop (mem_children.mp hchild).2]
        rfl
      · obtain ⟨hmem, hat, hle, other, hother, hclimb⟩ :=
          ihothers (fun other hother => htops other (List.mem_cons_of_mem _ hother)) hrow
        exact ⟨hmem, hat, hle, other, List.mem_cons_of_mem _ hother, hclimb⟩

/-- A row is listed after its parent. -/
theorem Preorder.parent_before (h : Preorder rows depth tops out) {parentID : String}
    (htops : ∀ row ∈ tops, row.parentID = parentID) {front back : List (DepartmentRow × Nat)}
    (hout : out = front ++ (row, n) :: back) :
    row.parentID = parentID ∨ ∃ parent ∈ front, parent.1.id = row.parentID := by
  induction h generalizing front back parentID with
  | nil => simp at hout
  | @cons depth top siblings below others _ _ ihbelow ihothers =>
    cases front with
    | nil =>
      obtain ⟨heq, -⟩ := List.cons.inj hout
      obtain ⟨rfl, -⟩ := Prod.mk.inj heq
      exact .inl (htops _ List.mem_cons_self)
    | cons first front =>
      obtain ⟨rfl, hrest⟩ := List.cons.inj hout
      rcases List.append_eq_append_iff.mp hrest with ⟨middle, rfl, hmiddle⟩ | ⟨middle, hmiddle, hback⟩
      · rcases ihothers (fun other hother => htops other (List.mem_cons_of_mem _ hother)) hmiddle with
          hroot | ⟨parent, hparent, hid⟩
        · exact .inl hroot
        · exact .inr ⟨parent, by simp [hparent], hid⟩
      · cases middle with
        | nil =>
          rw [List.nil_append] at hback
          rcases @ihothers parentID (fun other hother => htops other (List.mem_cons_of_mem _ hother)) [] back
            hback.symm with hroot | ⟨parent, hparent, -⟩
          · exact .inl hroot
          · cases hparent
        | cons entry middle =>
          rw [List.cons_append] at hback
          obtain ⟨rfl, -⟩ := List.cons.inj hback
          rcases ihbelow (fun child hchild => (mem_children.mp hchild).2) hmiddle with
            htop | ⟨parent, hparent, hid⟩
          · exact .inr ⟨(top, depth), List.mem_cons_self, htop.symm⟩
          · exact .inr ⟨parent, List.mem_cons_of_mem _ hparent, hid⟩

theorem children_nodup (parentID : String) : (children set.rows parentID).Nodup :=
  (List.mergeSort_perm _ _).nodup_iff.mpr (List.Nodup.filter _ (List.Nodup.of_map _ set.distinct))

/-- No row is listed twice: a row has one ancestor at the level of the siblings. -/
theorem Preorder.nodup (h : Preorder set.rows depth tops out) (htops : Level set depth tops)
    (hnodup : tops.Nodup) : (out.map Prod.fst).Nodup := by
  induction h with
  | nil => exact List.nodup_nil
  | @cons depth top siblings below others hbelow hothers ihbelow ihothers =>
    obtain ⟨htop, hdepth⟩ := htops top List.mem_cons_self
    obtain ⟨hnotin, hrest⟩ := List.nodup_cons.mp hnodup
    have hsiblings : Level set depth siblings := fun other hother => htops other (List.mem_cons_of_mem _ hother)
    have hfirst : Level set depth [top] := fun other hother => List.mem_singleton.mp hother ▸ ⟨htop, hdepth⟩
    have halone := Preorder.cons hbelow (.nil depth)
    rw [List.append_nil] at halone
    -- The level of a row tells its ancestor among the siblings.
    have hapart {row : DepartmentRow} {n m : Nat} (hrow : (row, n) ∈ (top, depth) :: below)
        (hother : (row, m) ∈ others) : False := by
      obtain ⟨-, hat, -, ancestor, hancestor, hclimb⟩ := halone.climbs hfirst hrow
      obtain ⟨-, hat', -, other, hmem, hclimb'⟩ := hothers.climbs hsiblings hother
      rw [hat.unique hat', hclimb'] at hclimb
      obtain rfl := Option.some.inj hclimb
      rw [List.mem_singleton.mp hancestor] at hmem
      exact hnotin hmem
    rw [List.map_cons, List.map_append, List.nodup_cons, List.nodup_append, List.mem_append]
    refine ⟨?_, ihbelow (.children htop hdepth) (children_nodup top.id), ihothers hsiblings hrest, ?_⟩
    · rintro (hlisted | hlisted)
      · obtain ⟨⟨_, n⟩, hentry, rfl⟩ := List.mem_map.mp hlisted
        obtain ⟨-, hat, hle, -⟩ := hbelow.climbs (.children htop hdepth) hentry
        have hsame := hat.unique hdepth
        omega
      · obtain ⟨⟨_, n⟩, hentry, rfl⟩ := List.mem_map.mp hlisted
        exact hapart List.mem_cons_self hentry
    · intro row hrow other hother heq
      obtain ⟨⟨_, n⟩, hentry, rfl⟩ := List.mem_map.mp hrow
      obtain ⟨⟨_, m⟩, hentry', rfl⟩ := List.mem_map.mp hother
      dsimp only at heq
      subst heq
      exact hapart (List.mem_cons_of_mem _ hentry) hentry'

end Listed

/-! ## The descent -/

/-- The loop over some siblings, with the calls below it. -/
def visitAll (rows : List DepartmentRow) (fuel depth : Nat) (siblings : List DepartmentRow)
    (listing : Listing) : Listing :=
  siblings.foldl (fun (listing : Listing) row =>
    if listing.visited.contains row.id then listing
    else visit rows fuel row.id (depth + 1)
      ⟨row.id :: listing.visited, listing.result ++ [departmentFromRow row depth]⟩) listing

/-- The rows of a listing with what is said of them. -/
def shown (out : List (DepartmentRow × Nat)) : List Department :=
  out.map fun entry => departmentFromRow entry.1 entry.2

/-- The descent adds the preorder when none of its rows is marked. -/
theorem visitAll_preorder {tops : List DepartmentRow} {out : List (DepartmentRow × Nat)}
    (h : Preorder rows depth tops out) (hnodup : (out.map fun entry => entry.1.id).Nodup) :
    ∀ {fuel : Nat}, out.length ≤ fuel → ∀ {listing : Listing},
      (∀ entry ∈ out, entry.1.id ∉ listing.visited) →
        ∃ visited, visitAll rows fuel depth tops listing = ⟨visited, listing.result ++ shown out⟩ ∧
          ∀ id, id ∈ visited ↔ id ∈ listing.visited ∨ ∃ entry ∈ out, entry.1.id = id := by
  induction h with
  | nil =>
    intro fuel _ listing _
    exact ⟨listing.visited, by simp [visitAll, shown], by simp⟩
  | @cons depth top siblings below others _ _ ihbelow ihothers =>
    intro fuel hfuel listing hfresh
    simp only [List.length_cons, List.length_append] at hfuel
    obtain ⟨rest, rfl⟩ : ∃ rest, fuel = rest + 1 := ⟨fuel - 1, by omega⟩
    simp only [List.map_cons, List.map_append, List.nodup_cons, List.nodup_append, List.mem_append,
      List.mem_map, not_or] at hnodup
    obtain ⟨⟨hnotBelow, hnotOthers⟩, hbelow, hothers, hapart⟩ := hnodup
    have hfirst : listing.visited.contains top.id = false := by
      simpa using hfresh (top, depth) List.mem_cons_self
    obtain ⟨middle, hmiddle, hmarked⟩ := @ihbelow hbelow rest (by omega)
      ⟨top.id :: listing.visited, listing.result ++ [departmentFromRow top depth]⟩ fun entry hentry hvisited => by
        rcases List.mem_cons.mp hvisited with heq | hold
        · exact hnotBelow ⟨entry, hentry, heq⟩
        · exact hfresh entry (List.mem_cons_of_mem _ (List.mem_append_left _ hentry)) hold
    obtain ⟨visited, hvisited, hall⟩ := @ihothers hothers (rest + 1) (by omega)
      ⟨middle, listing.result ++ [departmentFromRow top depth] ++ shown below⟩ fun entry hentry hmark => by
        rcases (hmarked _).mp hmark with hold | ⟨other, hother, heq⟩
        · rcases List.mem_cons.mp hold with heq | hold
          · exact hnotOthers ⟨entry, hentry, heq⟩
          · exact hfresh entry (List.mem_cons_of_mem _ (List.mem_append_right _ hentry)) hold
        · exact hapart _ ⟨other, hother, rfl⟩ _ ⟨entry, hentry, rfl⟩ heq
    refine ⟨visited, ?_, fun id => ?_⟩
    · rw [visitAll, List.foldl_cons, hfirst, if_neg Bool.false_ne_true]
      refine (congrArg (fun listing => visitAll rows (rest + 1) depth siblings listing) hmiddle).trans ?_
      rw [hvisited]
      simp [shown]
    · simp only [hall, hmarked, List.mem_cons, List.mem_append, or_and_right, exists_or, exists_eq_left]
      rw [@eq_comm _ id top.id, or_assoc, or_assoc]
      exact or_left_comm

/-- What the listing of a tenant has to be: its rows, each once and at its depth, in preorder. -/
structure Lists (rows : List DepartmentRow) (out : List (DepartmentRow × Nat)) : Prop where
  preorder : Preorder rows 0 (children rows "") out
  once : (out.map Prod.fst).Perm rows
  depth : ∀ entry ∈ out, AtDepth rows entry.2 entry.1
  parent_before : ∀ front entry back, out = front ++ entry :: back →
    entry.1.parentID = "" ∨ ∃ parent ∈ front, parent.1.id = entry.1.parentID

/-- The descent lists what the roots reach, and needs no more calls than there are rows. -/
theorem visit_reached (set : DepartmentSet) : ∃ out, Preorder set.rows 0 (children set.rows "") out ∧
    (∀ row n, (row, n) ∈ out ↔ row ∈ set.rows ∧ AtDepth set.rows n row) ∧ (out.map Prod.fst).Nodup ∧
    ∀ fuel, set.rows.length < fuel → (visit set.rows fuel "" 0 {}).result = shown out := by
  have hroots : Level set 0 (children set.rows "") := fun row hrow =>
    ⟨(mem_children.mp hrow).1, row, rfl, (mem_children.mp hrow).2⟩
  obtain ⟨out, hout⟩ := @exists_preorder set set.rows.length 0 (by omega) _ hroots
  have hnodup := hout.nodup hroots (children_nodup "")
  have hsub : out.map Prod.fst ⊆ set.rows := by
    intro row hrow
    obtain ⟨⟨_, n⟩, hentry, rfl⟩ := List.mem_map.mp hrow
    exact (hout.climbs hroots hentry).1
  have hlength := (List.subperm_of_subset hnodup hsub).length_le
  rw [List.length_map] at hlength
  refine ⟨out, hout, fun row n => ⟨fun hentry => ?_, fun ⟨hrow, hdepth⟩ => ?_⟩, hnodup, fun fuel hfuel => ?_⟩
  · exact ⟨(hout.climbs hroots hentry).1, (hout.climbs hroots hentry).2.1⟩
  · induction n generalizing row with
    | zero =>
      obtain ⟨root, hroot, hempty⟩ := hdepth
      obtain rfl := Option.some.inj hroot
      exact hout.top (mem_children.mpr ⟨hrow, hempty⟩)
    | succ n ih =>
      obtain ⟨root, hroot, hempty⟩ := hdepth
      obtain ⟨parent, hparent, hclimb⟩ := Option.bind_eq_some_iff.mp hroot
      obtain ⟨hmem, hid⟩ := parentOf_mem hparent
      exact hout.child (ih parent ⟨hmem, root, hclimb, hempty⟩ hmem ⟨root, hclimb, hempty⟩)
        (mem_children.mpr ⟨hrow, hid.symm⟩)
  · obtain ⟨rest, rfl⟩ : ∃ rest, fuel = rest + 1 := ⟨fuel - 1, by omega⟩
    have hids : (out.map fun entry => entry.1.id).Nodup := by
      have hmap := (List.nodup_map_iff_inj_on hnodup).mpr fun row hrow other hother heq =>
        eq_of_id (hsub hrow) (hsub hother) heq
      rwa [List.map_map] at hmap
    obtain ⟨visited, hvisit, -⟩ := @visitAll_preorder _ _ _ _ hout hids rest (by omega) {} fun _ _ => List.not_mem_nil
    exact (congrArg Listing.result hvisit).trans (List.nil_append _)

/-- A tenant's departments are refused exactly when no root reaches some row, and else listed. -/
theorem orderDepartments_cases (set : DepartmentSet) :
    (orderDepartments set.rows = .error .hierarchyCorrupt ↔ ∃ row ∈ set.rows, ∀ n, ¬AtDepth set.rows n row) ∧
    ((∀ row ∈ set.rows, ∃ n, AtDepth set.rows n row) →
      ∃ out, orderDepartments set.rows = .ok (shown out) ∧ Lists set.rows out) ∧
    ∀ fuel, set.rows.length < fuel →
      (visit set.rows fuel "" 0 {}).result = (visit set.rows (set.rows.length + 1) "" 0 {}).result := by
  obtain ⟨out, hout, hmem, hnodup, hvisit⟩ := visit_reached set
  have hresult := hvisit (set.rows.length + 1) (by omega)
  have hsub : out.map Prod.fst ⊆ set.rows := by
    intro row hrow
    obtain ⟨⟨_, n⟩, hentry, rfl⟩ := List.mem_map.mp hrow
    exact ((hmem _ _).mp hentry).1
  have hsubperm := List.subperm_of_subset hnodup hsub
  -- The listing has the length of the table exactly when it lacks no row.
  have hfull : (shown out).length = set.rows.length ↔ ∀ row ∈ set.rows, ∃ n, AtDepth set.rows n row := by
    rw [shown, List.length_map, ← List.length_map (f := Prod.fst)]
    constructor
    · intro hlength row hrow
      have hperm := hsubperm.perm_of_length_le (Nat.le_of_eq hlength.symm)
      obtain ⟨⟨_, n⟩, hentry, rfl⟩ := List.mem_map.mp (hperm.mem_iff.mpr hrow)
      exact ⟨n, ((hmem _ _).mp hentry).2⟩
    · intro hall
      refine Nat.le_antisymm hsubperm.length_le ?_
      refine (List.subperm_of_subset (List.Nodup.of_map _ set.distinct) fun row hrow => ?_).length_le
      obtain ⟨n, hn⟩ := hall row hrow
      exact List.mem_map.mpr ⟨(row, n), (hmem row n).mpr ⟨hrow, hn⟩, rfl⟩
  simp only [orderDepartments, hresult]
  refine ⟨?_, fun hall => ?_, fun fuel hfuel => hvisit fuel hfuel⟩
  · by_cases hlength : (shown out).length = set.rows.length
    · rw [if_neg (not_not.mpr hlength)]
      refine iff_of_false (by simp) fun ⟨row, hrow, hnone⟩ => ?_
      obtain ⟨n, hn⟩ := hfull.mp hlength row hrow
      exact hnone n hn
    · rw [if_pos hlength]
      refine iff_of_true rfl ?_
      by_contra hnone
      refine hlength (hfull.mpr fun row hrow => ?_)
      by_contra hno
      exact hnone ⟨row, hrow, fun n hn => hno ⟨n, hn⟩⟩
  · have hlength := hfull.mpr hall
    refine ⟨out, if_neg (not_not.mpr hlength), hout, ?_, ?_, ?_⟩
    · rw [shown, List.length_map, ← List.length_map (f := Prod.fst)] at hlength
      exact hsubperm.perm_of_length_le (Nat.le_of_eq hlength.symm)
    · intro entry hentry
      exact ((hmem _ _).mp hentry).2
    · intro front entry back heq
      exact hout.parent_before (fun row hrow => (mem_children.mp hrow).2) heq

end Forest

end DepartmentListing
