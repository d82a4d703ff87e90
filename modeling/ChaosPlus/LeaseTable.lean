import Mathlib.Logic.Function.Basic

/-!
# Leases in a table with a clock

A row of the table names its holder and the time its lease runs out. Beside the rows stands
what the holders were told: until when each was last granted each row. A holder that is not
yet past what it was told finds its name in the row, whatever the others do, as long as a
row is written over only by its own holder or after it has run out.
-/
namespace LeaseTable

variable {κ τ : Type*}

structure Row (τ : Type*) where
  holder : τ
  expiresAt : Int
  deriving DecidableEq, Repr

/-- The rows at a time of the database clock; `granted` is history. -/
structure Table (κ τ : Type*) where
  now : Int
  rows : κ → Option (Row τ) := fun _ => none
  granted : τ → κ → Option Int := fun _ _ => none

/-- The row names the holder and has not run out. -/
def Holds (t : Table κ τ) (holder : τ) (key : κ) : Prop :=
  ∃ row, t.rows key = some row ∧ row.holder = holder ∧ t.now ≤ row.expiresAt

/-- What the holder was granted lasts at the time. -/
def Lasts (t : Table κ τ) (time : Int) (holder : τ) (key : κ) : Prop :=
  ∃ expiry, t.granted holder key = some expiry ∧ time ≤ expiry

/-- Who is not past what it was granted is in the row. -/
def Sound (t : Table κ τ) : Prop :=
  ∀ holder key expiry, t.granted holder key = some expiry → t.now ≤ expiry →
    t.rows key = some ⟨holder, expiry⟩

/-- What a row says its holder was told, unless the row is blank. -/
def Recorded (blank : Row τ → Prop) (t : Table κ τ) : Prop :=
  ∀ key row, t.rows key = some row → blank row ∨ t.granted row.holder key = some row.expiresAt

/-- The holder may write the row: it is its own or has run out. -/
def Open (t : Table κ τ) (holder : τ) (key : κ) : Prop :=
  ∀ row, t.rows key = some row → row.holder = holder ∨ row.expiresAt < t.now

def Table.pass (t : Table κ τ) (millis : Nat) : Table κ τ := { t with now := t.now + millis }

section Writes

variable [DecidableEq κ]

/-- Writes a row nobody is granted. -/
def Table.place (t : Table κ τ) (key : κ) (row : Row τ) : Table κ τ :=
  { t with rows := Function.update t.rows key (some row) }

variable [DecidableEq τ]

def Table.grant (t : Table κ τ) (key : κ) (holder : τ) (expiry : Int) : Table κ τ :=
  { t with
    rows := Function.update t.rows key (some ⟨holder, expiry⟩)
    granted := Function.update t.granted holder (Function.update (t.granted holder) key (some expiry)) }

/-- The holder gives the row back, which reads as `row` afterwards. -/
def Table.free (t : Table κ τ) (key : κ) (holder : τ) (row : Row τ) : Table κ τ :=
  { t with
    rows := Function.update t.rows key (some row)
    granted := Function.update t.granted holder (Function.update (t.granted holder) key none) }

end Writes

variable {t : Table κ τ} {holder other : τ} {key : κ} {time : Int}

theorem sound_start (now : Int) : Sound ({ now := now } : Table κ τ) := by
  intro holder key expiry hgranted
  cases hgranted

theorem Sound.holds (h : Sound t) (hlasts : Lasts t t.now holder key) : Holds t holder key := by
  obtain ⟨expiry, hgranted, hnow⟩ := hlasts
  exact ⟨⟨holder, expiry⟩, h holder key expiry hgranted hnow, rfl, hnow⟩

theorem Holds.unique (h : Holds t holder key) (hother : Holds t other key) : holder = other := by
  obtain ⟨row, hrow, rfl, -⟩ := h
  obtain ⟨row', hrow', rfl, -⟩ := hother
  rw [hrow] at hrow'
  rw [Option.some.inj hrow']

theorem Open.not_holds (h : Open t holder key) (hne : other ≠ holder) : ¬ Holds t other key := by
  rintro ⟨row, hrow, rfl, hnow⟩
  rcases h row hrow with heq | hexpired
  · exact hne heq
  · omega

/-- Two holders are never granted one row at the same time. -/
theorem Sound.unique (h : Sound t) (hlasts : Lasts t t.now holder key)
    (hother : Lasts t t.now other key) : holder = other :=
  (h.holds hlasts).unique (h.holds hother)

/-- Where a holder may write the row, nobody else is granted it. -/
theorem Sound.not_lasts (h : Sound t) (hopen : Open t holder key) (hne : other ≠ holder) :
    ¬ Lasts t t.now other key :=
  fun hlasts => hopen.not_holds hne (h.holds hlasts)

theorem Recorded.lasts {blank : Row τ → Prop} (h : Recorded blank t) (hholds : Holds t holder key)
    (hnot : ∀ row, t.rows key = some row → row.holder = holder → ¬ blank row) :
    Lasts t t.now holder key := by
  obtain ⟨row, hrow, hholder, hnow⟩ := hholds
  rcases h key row hrow with hblank | hgranted
  · exact absurd hblank (hnot row hrow hholder)
  · exact ⟨row.expiresAt, hholder ▸ hgranted, hnow⟩

theorem Sound.pass (h : Sound t) (millis : Nat) : Sound (t.pass millis) := by
  intro holder key expiry hgranted hnow
  refine h holder key expiry hgranted ?_
  simp only [Table.pass] at hnow
  omega

section Writes

variable [DecidableEq κ]

theorem Sound.place (h : Sound t) (habsent : t.rows key = none) (row : Row τ) :
    Sound (t.place key row) := by
  intro holder k expiry hgranted hnow
  have hrow := h holder k expiry hgranted hnow
  have hne : k ≠ key := by
    rintro rfl
    rw [habsent] at hrow
    cases hrow
  simpa [Table.place, hne] using hrow

theorem Recorded.place {blank : Row τ → Prop} (h : Recorded blank t) {row : Row τ}
    (hblank : blank row) : Recorded blank (t.place key row) := by
  intro k found hfound
  by_cases hk : k = key
  · subst hk
    simp only [Table.place, Function.update_self, Option.some.injEq] at hfound
    exact .inl (hfound ▸ hblank)
  · simp only [Table.place, Function.update_of_ne hk] at hfound
    exact h k found hfound

variable [DecidableEq τ]

theorem Sound.grant (h : Sound t) (hopen : Open t holder key) (expiry : Int) :
    Sound (t.grant key holder expiry) := by
  intro other k later hgranted hnow
  by_cases hother : other = holder
  · subst hother
    by_cases hk : k = key
    · subst hk
      simp only [Table.grant, Function.update_self, Option.some.injEq] at hgranted
      simp [Table.grant, hgranted]
    · simp only [Table.grant, Function.update_self, Function.update_of_ne hk] at hgranted
      simpa [Table.grant, hk] using h other k later hgranted hnow
  · simp only [Table.grant, Function.update_of_ne hother] at hgranted
    have hk : k ≠ key := by
      rintro rfl
      exact h.not_lasts hopen hother ⟨later, hgranted, hnow⟩
    simpa [Table.grant, hk] using h other k later hgranted hnow

theorem Sound.free (h : Sound t) {own : Row τ} (hown : t.rows key = some own)
    (hholder : own.holder = holder) (row : Row τ) : Sound (t.free key holder row) := by
  intro other k expiry hgranted hnow
  have hopen : Open t holder key := by
    intro found hfound
    rw [hown] at hfound
    exact .inl (Option.some.inj hfound ▸ hholder)
  by_cases hother : other = holder
  · subst hother
    by_cases hk : k = key
    · subst hk
      simp [Table.free] at hgranted
    · simp only [Table.free, Function.update_self, Function.update_of_ne hk] at hgranted
      simpa [Table.free, hk] using h other k expiry hgranted hnow
  · simp only [Table.free, Function.update_of_ne hother] at hgranted
    have hk : k ≠ key := by
      rintro rfl
      exact h.not_lasts hopen hother ⟨expiry, hgranted, hnow⟩
    simpa [Table.free, hk] using h other k expiry hgranted hnow

theorem granted_grant_of_ne {k : κ} {expiry : Int} (hne : other ≠ holder ∨ k ≠ key) :
    (t.grant key holder expiry).granted other k = t.granted other k := by
  by_cases hother : other = holder
  · subst hother
    have hk : k ≠ key := hne.resolve_left fun h => h rfl
    simp [Table.grant, hk]
  · simp [Table.grant, hother]

theorem granted_free_of_ne {k : κ} {row : Row τ} (hne : other ≠ holder ∨ k ≠ key) :
    (t.free key holder row).granted other k = t.granted other k := by
  by_cases hother : other = holder
  · subst hother
    have hk : k ≠ key := hne.resolve_left fun h => h rfl
    simp [Table.free, hk]
  · simp [Table.free, hother]

theorem Recorded.grant {blank : Row τ → Prop} (h : Recorded blank t) (expiry : Int) :
    Recorded blank (t.grant key holder expiry) := by
  intro k found hfound
  by_cases hk : k = key
  · subst hk
    simp only [Table.grant, Function.update_self, Option.some.injEq] at hfound
    subst hfound
    exact .inr (by simp [Table.grant])
  · simp only [Table.grant, Function.update_of_ne hk] at hfound
    rw [granted_grant_of_ne (.inr hk)]
    exact h k found hfound

theorem Recorded.free {blank : Row τ → Prop} (h : Recorded blank t) {row : Row τ}
    (hblank : blank row) : Recorded blank (t.free key holder row) := by
  intro k found hfound
  by_cases hk : k = key
  · subst hk
    simp only [Table.free, Function.update_self, Option.some.injEq] at hfound
    exact .inl (hfound ▸ hblank)
  · simp only [Table.free, Function.update_of_ne hk] at hfound
    rw [granted_free_of_ne (.inr hk)]
    exact h k found hfound

/-- What a statement of the actor makes of the table; `freed` is the row it may give back. -/
inductive Write (blank : Row τ → Prop) (t : Table κ τ) : Option τ → Option κ → Table κ τ → Prop where
  | nothing (actor : Option τ) (freed : Option κ) : Write blank t actor freed t
  | placed {key : κ} {row : Row τ} (actor : Option τ) (freed : Option κ)
      (habsent : t.rows key = none) (hblank : blank row) :
      Write blank t actor freed (t.place key row)
  | granted {key : κ} {holder : τ} {expiry : Int} (freed : Option κ) (hopen : Open t holder key)
      (hnow : t.now ≤ expiry) : Write blank t (some holder) freed (t.grant key holder expiry)
  | freed {key : κ} {own row : Row τ} (hown : t.rows key = some own) (hblank : blank row) :
      Write blank t (some own.holder) (some key) (t.free key own.holder row)

section Write

variable {blank : Row τ → Prop} {actor : Option τ} {freed : Option κ} {after : Table κ τ}

theorem Write.sound (h : Write blank t actor freed after) (hsound : Sound t) : Sound after := by
  cases h with
  | nothing => exact hsound
  | placed _ _ habsent _ => exact hsound.place habsent _
  | granted _ hopen _ => exact hsound.grant hopen _
  | freed hown _ => exact hsound.free hown rfl _

theorem Write.recorded (h : Write blank t actor freed after) (hrecorded : Recorded blank t) :
    Recorded blank after := by
  cases h with
  | nothing => exact hrecorded
  | placed _ _ _ hblank => exact hrecorded.place hblank
  | granted => exact hrecorded.grant _
  | freed _ hblank => exact hrecorded.free hblank

/-- What a holder was granted lasts on, unless it gives the row back itself. -/
theorem Write.lasts (h : Write blank t actor freed after) (hlasts : Lasts t t.now holder key)
    (hnot : ¬ (actor = some holder ∧ freed = some key)) : Lasts after after.now holder key := by
  obtain ⟨expiry, hgranted, hnow⟩ := id hlasts
  cases h with
  | nothing | placed => exact hlasts
  | @granted k owner later _ hopen hlater =>
    by_cases hsame : holder = owner ∧ key = k
    · obtain ⟨rfl, rfl⟩ := hsame
      exact ⟨later, by simp [Table.grant], hlater⟩
    · refine ⟨expiry, ?_, hnow⟩
      rw [granted_grant_of_ne (not_and_or.mp hsame), hgranted]
  | @freed k own row hown hblank =>
    refine ⟨expiry, ?_, hnow⟩
    have hne : holder ≠ own.holder ∨ key ≠ k := by
      by_contra hsame
      obtain ⟨rfl, rfl⟩ := not_or.mp hsame |>.imp not_not.mp not_not.mp
      exact hnot ⟨rfl, rfl⟩
    rw [granted_free_of_ne hne, hgranted]

end Write

end Writes

end LeaseTable
