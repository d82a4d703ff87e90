import ChaosPlus.WorkspaceFiles

/-!
# What the daemon reads is inside the workspace

The texts that are compared have their separators rewritten after they were resolved. On
Windows that changes nothing but the look of a path. On POSIX a backslash is part of a name, so
that the rewriting makes new names of one, dot names among them.
-/
namespace FileConfinement

open PathText WorkspaceFiles

/-! ## Rewritten separators -/

theorem isSeparator_iff {c : Char} : isSeparator c = true ↔ c = '/' ∨ c = '\\' := by
  simp [isSeparator]

theorem splitOn_norm (text : Text) : (norm text).splitOn '/' = text.splitOnP isSeparator := by
  induction text with
  | nil => rfl
  | cons c text ih =>
    have hcons : norm (c :: text) = (if c = '\\' then '/' else c) :: norm text := rfl
    rw [hcons, List.splitOn_cons_eq_if_modifyHead, List.splitOnP_cons_eq_if_modifyHead, ih]
    by_cases hback : c = '\\'
    · subst hback
      rfl
    · rw [if_neg hback]
      by_cases hslash : c = '/'
      · subst hslash
        rfl
      · rw [if_neg (by simpa using hslash), if_neg (by simp [isSeparator, hslash, hback])]

theorem splitOnP_norm (text : Text) : (norm text).splitOnP isSeparator = text.splitOnP isSeparator := by
  induction text with
  | nil => rfl
  | cons c text ih =>
    have hcons : norm (c :: text) = (if c = '\\' then '/' else c) :: norm text := rfl
    rw [hcons, List.splitOnP_cons_eq_if_modifyHead, List.splitOnP_cons_eq_if_modifyHead, ih]
    by_cases hback : c = '\\'
    · subst hback
      rfl
    · rw [if_neg hback]

/-- A path is let through exactly if its names, at either separator, go on after the workspace's. -/
theorem not_escapes_iff (platform : Platform) (cwd path : Text) :
    escapes platform cwd path = false ↔
      (platform.resolve [cwd]).splitOnP isSeparator <+: (platform.resolve [cwd,
        path]).splitOnP isSeparator := by
  rw [← splitOn_norm, ← splitOn_norm, ← extends_iff]
  rw [escapes, Bool.and_eq_false_iff, Bool.not_eq_false', List.isPrefixOf_iff_prefix]
  exact or_congr (decide_eq_false_iff_not.trans not_not) Iff.rfl

/-! ## POSIX -/

section Posix

variable {names tail : List Name} {dir : List Name} {paths : List Text}

/-- Where a resolved path leads, no name is a dot name or has a slash. -/
theorem plain_posixWalk (hdir : ∀ name ∈ dir, '/' ∉ name) (htail : ∀ name ∈ tail, '/' ∉ name) :
    ∀ name ∈ posixWalk dir paths tail, Normal name ∧ '/' ∉ name := by
  have hclean : ∀ names : List Name, (∀ name ∈ names, '/' ∉ name) → ∀ name ∈ clean names, Normal name ∧
    '/' ∉ name := by
    intro names hnames name hname
    obtain ⟨hmem, hnormal⟩ := mem_clean hname
    exact ⟨hnormal, hnames name hmem⟩
  have hsplit : ∀ (path : Text) (tail : List Name), (∀ name ∈ tail, '/' ∉ name) →
      ∀ name ∈ path.splitOn '/' ++ tail, '/' ∉ name := by
    intro path tail htail name hname
    rcases List.mem_append.mp hname with hsplit | hold
    · intro hslash
      simpa using forall_of_mem_splitOnP hsplit '/' hslash
    · exact htail name hold
  induction paths generalizing tail with
  | nil =>
    exact hclean _ fun name hname => (List.mem_append.mp hname).elim (hdir name) (htail name)
  | cons path rest ih =>
    unfold posixWalk
    split
    · exact ih htail
    split
    · exact hclean _ (hsplit path tail htail)
    · exact ih (hsplit path tail htail)

theorem clean_posixText (h : ∀ name ∈ names, Normal name ∧ '/' ∉ name) :
    clean ((posixText names).splitOn '/') = names := by
  have hcons : (posixText names).splitOn '/' = [] :: (['/'].intercalate names).splitOn '/' := by
    rw [posixText, List.splitOn_cons_eq_if_modifyHead, if_pos (by rfl)]
  rw [hcons, clean_nil_cons]
  cases names with
  | nil => rfl
  | cons name rest =>
    rw [List.splitOn_intercalate '/' (fun name hname => (h name hname).2) (List.cons_ne_nil _ _)]
    exact clean_normal fun name hname => (h name hname).1

end Posix

/-! ## Windows -/

section Win32

variable {proc : Win32Process} {device device' : Device} {names names' : List Name} {path : WinPath}

/-- A name without separators that is no dot name. -/
def Plain (name : Name) : Prop := Normal name ∧ ∀ c ∈ name, isSeparator c = false

theorem plain_clean (h : ∀ name ∈ names, ∀ c ∈ name, isSeparator c = false) : ∀ name ∈ clean names,
    Plain name := by
  intro name hname
  obtain ⟨hmem, hnormal⟩ := mem_clean hname
  exact ⟨hnormal, h name hmem⟩

/-- What is left of a path after its root has no separators either. -/
theorem separated_parseRoot (h : ∀ name ∈ names, ∀ c ∈ name, isSeparator c = false) :
    ∀ name ∈ (parseRoot names).2.2, ∀ c ∈ name, isSeparator c = false := by
  have hback : ∀ rest : List Name, rest <:+ names → ∀ name ∈ rest, ∀ c ∈ name, isSeparator c = false :=
    fun rest hrest name hname => h name (hrest.subset hname)
  unfold parseRoot
  split
  next server rest =>
    split
    next folder tail hdrop =>
      split
      · refine hback tail ?_
        have hsuffix : folder :: tail <:+ rest := hdrop ▸ List.dropWhile_suffix _
        exact (List.suffix_cons folder tail).trans (hsuffix.trans ⟨[[], [], server], rfl⟩)
      · exact hback _ ⟨[[], []], rfl⟩
    · exact hback _ ⟨[[], []], rfl⟩
  next rest _ => exact hback rest (List.suffix_cons _ _)
  next letter more rest =>
    split
    · intro name hname
      rcases List.mem_cons.mp hname with rfl | hrest
      · exact fun c hc => h _ List.mem_cons_self c (by simp [hc])
      · exact h name (List.mem_cons_of_mem _ hrest)
    · exact h
  · exact h

theorem plain_win32Walk {paths : List Text} {found : Option Device} {rooted : Bool} {tail : List Name}
    (htail : ∀ name ∈ tail, ∀ c ∈ name, isSeparator c = false) :
    ∀ name ∈ (win32Walk proc paths found rooted tail).names, Plain name := by
  have harrive : ∀ (found : Option Device) (rooted : Bool) (tail : List Name),
      (∀ name ∈ tail, ∀ c ∈ name, isSeparator c = false) →
        ∀ name ∈ (win32Arrive proc found rooted tail).names, Plain name := by
    intro found rooted tail htail
    refine plain_clean fun name hname => ?_
    split at hname
    · exact htail name hname
    · rcases List.mem_append.mp hname with hdir | hold
      · obtain ⟨name, -, rfl⟩ := List.mem_map.mp hdir
        exact name.2.2
      · exact htail name hold
  induction paths generalizing found rooted tail with
  | nil => exact harrive found rooted tail htail
  | cons path rest ih =>
    simp only [win32Walk]
    split
    · exact ih htail
    have hmore : ∀ name ∈ (if rooted then tail else (parseRoot (path.splitOnP isSeparator)).2.2 ++ tail),
        ∀ c ∈ name, isSeparator c = false := by
      intro name hname
      split at hname
      · exact htail name hname
      · rcases List.mem_append.mp hname with hnew | hold
        · exact separated_parseRoot (fun name hname => forall_of_mem_splitOnP hname) name hnew
        · exact htail name hold
    split
    · exact harrive _ _ _ hmore
    · exact ih hmore

/-- The names behind a device: a root ends in a separator. -/
def behind (names : List Name) : List Name := if names = [] then [[]] else names

theorem splitOnP_text (h : ∀ name ∈ path.names, Plain name) :
    path.text.splitOnP isSeparator = path.device.names ++ behind path.names := by
  refine splitOnP_intercalate (by rfl) (fun name hname => ?_) ?_
  · rcases List.mem_append.mp hname with hdevice | hbehind
    · cases hpath : path.device with
      | drive letter =>
        rw [hpath] at hdevice
        obtain rfl := List.mem_singleton.mp hdevice
        have hletter : letter.1 ≠ '/' ∧ letter.1 ≠ '\\' := by
          constructor
          · intro heq
            exact absurd (heq ▸ letter.2) (by decide)
          · intro heq
            exact absurd (heq ▸ letter.2) (by decide)
        simpa [isSeparator] using hletter
      | share server folder =>
        rw [hpath] at hdevice
        simp only [Device.names, List.mem_cons, List.not_mem_nil, or_false] at hdevice
        rcases hdevice with rfl | rfl | rfl | rfl
        · simp
        · simp
        · exact server.2.2
        · exact folder.2.2
    · split at hbehind
      · simp [List.mem_singleton.mp hbehind]
      · exact (h name hbehind).2
  · cases path.device with
    | drive letter => simp [Device.names]
    | share server folder => simp [Device.names]

theorem behind_ne_nil : behind names ≠ [] := by
  unfold behind
  split
  · exact List.cons_ne_nil _ _
  next hne => exact hne

theorem clean_behind (h : ∀ name ∈ names, Plain name) : clean (behind names) = names := by
  unfold behind
  split
  next hnone =>
    rw [hnone]
    rfl
  · exact clean_normal fun name hname => (h name hname).1

/-- A text that was resolved is read as it was meant. -/
theorem location_text (h : ∀ name ∈ path.names, Plain name) :
    (Platform.win32 proc).location (norm path.text) =
      ⟨some (proc.fold path.device.text), path.names.map proc.fold⟩ := by
  simp only [Platform.location, splitOnP_norm, splitOnP_text h]
  obtain ⟨first, rest, hbehind⟩ := List.exists_cons_of_ne_nil (@behind_ne_nil path.names)
  have hclean := clean_behind h
  cases hdevice : path.device with
  | drive letter =>
    have hparse : parseRoot ((Device.drive letter).names ++ behind path.names) =
        (some (.drive letter), true, [] :: behind path.names) := by
      rw [hbehind]
      simp [Device.names, parseRoot, letter.2]
    simp [hparse, hclean]
  | share server folder =>
    have hparse : parseRoot ((Device.share server folder).names ++ behind path.names) =
        (some (.share server folder), true, behind path.names) := by
      have hfolder : folder.1 ≠ [] := folder.2.1
      simp only [Device.names, List.cons_append, List.nil_append, parseRoot]
      rw [List.dropWhile_cons_of_neg (by simpa using hfolder)]
      simp only [dif_pos (And.intro server.2 folder.2)]
    simp [hparse, hclean]

theorem behind_prefix_iff (h : ∀ name ∈ names, Plain name) (h' : ∀ name ∈ names', Plain name) :
    behind names <+: behind names' ↔ names' = names ∨ names ≠ [] ∧ names <+: names' := by
  have hfirst : ∀ {names : List Name}, (∀ name ∈ names, Plain name) → ∀ rest, names ≠ [] :: rest := by
    rintro _ hplain rest rfl
    exact (hplain [] List.mem_cons_self).1.1 rfl
  unfold behind
  split
  next hnone =>
    subst hnone
    split
    next hnone' => simp [hnone']
    next hsome =>
      simp only [ne_eq, not_true_eq_false, false_and, or_false, hsome, iff_false]
      rintro ⟨rest, hrest⟩
      exact hfirst h' rest hrest.symm
  next hsome =>
    split
    next hnone' =>
      subst hnone'
      constructor
      · rintro ⟨rest, hrest⟩
        obtain ⟨name, more, rfl⟩ := List.exists_cons_of_ne_nil hsome
        exact absurd (congrArg (·.take 1) hrest) (by simpa using fun heq => hfirst h more (by rw [heq]))
      · rintro (heq | ⟨-, hlead⟩)
        · exact absurd heq.symm hsome
        · exact absurd (List.prefix_nil.mp hlead) hsome
    · constructor
      · exact fun hlead => .inr ⟨hsome, hlead⟩
      · rintro (rfl | ⟨-, hlead⟩)
        · exact List.prefix_rfl
        · exact hlead

/-- A device is told by its names, whatever comes behind them. -/
theorem device_prefix_iff {back back' : List Name} :
    device.names ++ back <+: device'.names ++ back' ↔ device' = device ∧ back <+: back' := by
  cases device with
  | drive letter =>
    cases device' with
    | drive letter' => simp [Device.names, List.cons_prefix_cons, Subtype.ext_iff, eq_comm]
    | share server' folder' => simp [Device.names, List.cons_prefix_cons]
  | share server folder =>
    cases device' with
    | drive letter' => simp [Device.names, List.cons_prefix_cons]
    | share server' folder' => simp [Device.names, List.cons_prefix_cons, Subtype.ext_iff, eq_comm, and_assoc]

end Win32

/-! ## The command -/

/-- The answer to a read is the file system's where the path leads to the workspace or below;
and a file whose content is answered is there. -/
structure Confined (platform : Platform) (cwd path : Text) (reads : (Text → Except String String) → Reply)
    : Prop where
  inside : ∀ fs content, reads fs = .content content →
    (platform.location (abs platform cwd path)).Below (platform.location (platform.resolve [cwd]))
  served : (platform.location (platform.resolve [cwd, path])).Below
    (platform.location (platform.resolve [cwd])) →
    ∀ fs, reads fs = openFile fs (abs platform cwd path)

/-- On POSIX: in the root, the path leads to the root or to a name that begins with a
backslash; elsewhere, where the names that backslashes make go on after the workspace's, they
do so without dot names. On Windows: a path that leads to the workspace or below, whatever its
case, is spelled like the workspace, which is no root that it leads below. -/
def fits : Platform → Text → Text → Bool
  | .posix dir, cwd, path =>
    let workspace := posixWalk (dir.map (·.1)) [cwd] []
    let file := posixWalk (dir.map (·.1)) [path, cwd] []
    if workspace = [] then file = [] || file.head?.any fun name => name.head? = some '\\'
    else !((posixText workspace).splitOnP isSeparator).isPrefixOf ((posixText file).splitOnP isSeparator) ||
      workspace.isPrefixOf (clean ((posixText file).splitOnP isSeparator))
  | .win32 proc, cwd, path =>
    let workspace := win32Walk proc [cwd] none false []
    let file := win32Walk proc [path, cwd] none false []
    !(proc.fold file.device.text = proc.fold workspace.device.text &&
        (workspace.names.map proc.fold).isPrefixOf (file.names.map proc.fold)) ||
      file = workspace || (workspace.names ≠ [] && file.device = workspace.device &&
        workspace.names.isPrefixOf file.names)

section Command

variable {platform : Platform} {cwd path : Text}

/-- The answer where the spawn has a workspace. -/
def answer (platform : Platform) (cwd path : Text) (fs : Text → Except String String) : Reply :=
  if escapes platform cwd path then .error "path escapes workspace" else openFile fs (abs platform cwd path)

theorem confined_iff :
    Confined platform cwd path (answer platform cwd path) ↔
      (escapes platform cwd path = false →
        (platform.location (abs platform cwd path)).Below (platform.location (platform.resolve [cwd]))) ∧
      ((platform.location (platform.resolve [cwd, path])).Below (platform.location (platform.resolve [cwd])) →
        escapes platform cwd path = false) := by
  constructor
  · rintro ⟨hinside, hserved⟩
    refine ⟨fun hopen => hinside (fun _ => .ok "") "" ?_, fun hbelow => ?_⟩
    · rw [answer, if_neg (by simp [hopen])]
      rfl
    · by_contra hrefused
      have hreply := hserved hbelow fun _ => .ok ""
      rw [answer, if_pos (by simpa using hrefused)] at hreply
      cases hreply
  · rintro ⟨hinside, hserved⟩
    constructor
    · intro fs content hreply
      refine hinside (Bool.eq_false_iff.mpr fun hrefused => ?_)
      rw [answer, if_pos hrefused] at hreply
      cases hreply
    · intro hbelow fs
      rw [answer, if_neg (by simp [hserved hbelow])]

/-! ### On POSIX -/

section Posix

variable {dir : List { name : Name // '/' ∉ name }} {workspace file : List Name}

theorem posixText_append {front back : List Name} (hfront : front ≠ []) (hback : back ≠ []) :
    posixText (front ++ back) = posixText front ++ '/' :: ['/'].intercalate back := by
  rw [posixText, intercalate_append hfront hback, posixText, List.cons_append]

/-- Below a workspace that is not the root a path is let through. -/
theorem splits_of_lead (hsome : workspace ≠ []) (hlead : workspace <+: file) :
    (posixText workspace).splitOnP isSeparator <+: (posixText file).splitOnP isSeparator := by
  obtain ⟨rest, rfl⟩ := hlead
  cases rest with
  | nil => simp
  | cons name rest =>
    rw [posixText_append hsome (List.cons_ne_nil _ _), List.splitOnP_append_cons _ _ (by rfl)]
    exact List.prefix_append _ _

/-- Below the root only a name that begins with a backslash is. -/
theorem root_split_prefix_iff (hfile : ∀ name ∈ file, Normal name ∧ '/' ∉ name) :
    (posixText []).splitOnP isSeparator <+: (posixText file).splitOnP isSeparator ↔
      file = [] ∨ file.head?.any (fun name => name.head? = some '\\') = true := by
  have hcons : ∀ text : Text, ('/' :: text).splitOnP isSeparator = [] :: text.splitOnP isSeparator := by
    intro text
    rw [List.splitOnP_cons_eq_if_modifyHead, if_pos (by rfl)]
  have hroot : (posixText []).splitOnP isSeparator = [[], []] := by rfl
  rw [hroot, posixText, hcons, List.cons_prefix_cons]
  cases file with
  | nil => simp
  | cons name rest =>
    obtain ⟨⟨hname, -⟩, hslash⟩ := hfile name List.mem_cons_self
    obtain ⟨c, more, rfl⟩ := List.exists_cons_of_ne_nil hname
    obtain ⟨text, htext⟩ : ∃ text, ['/'].intercalate ((c :: more) :: rest) = c :: text := by
      cases rest with
      | nil => exact ⟨more, by simp⟩
      | cons next rest => exact ⟨more ++ ['/'] ++ ['/'].intercalate (next :: rest),
          by simp [List.intercalate_cons_cons]⟩
    have hc : isSeparator c = true ↔ c = '\\' := by
      rw [isSeparator_iff, or_iff_right]
      rintro rfl
      exact hslash List.mem_cons_self
    rw [htext, List.splitOnP_cons_eq_if_modifyHead]
    by_cases hback : c = '\\'
    · simp [hback, isSeparator]
    · rw [if_neg (fun hsep => hback (hc.mp hsep))]
      obtain ⟨first, others, hfirst⟩ := List.exists_cons_of_ne_nil (List.splitOnP_ne_nil isSeparator text)
      simp [hfirst, hback]

theorem posix_confined_iff :
    Confined (.posix dir) cwd path (answer (.posix dir) cwd path) ↔ fits (.posix dir) cwd path = true := by
  have hplain : ∀ paths, ∀ name ∈ posixWalk (dir.map (·.1)) paths [], Normal name ∧ '/' ∉ name := by
    intro paths
    refine plain_posixWalk (fun name hname => ?_) (by simp)
    obtain ⟨name, -, rfl⟩ := List.mem_map.mp hname
    exact name.2
  rw [confined_iff, not_escapes_iff]
  simp only [Platform.location, Platform.resolve, WorkspaceFiles.abs, Location.Below, true_and,
    splitOn_norm, fits]
  simp only [List.reverse_cons, List.reverse_nil, List.nil_append, List.singleton_append]
  have hworkspace := hplain [cwd]
  have hfile := hplain [path, cwd]
  generalize posixWalk (dir.map (·.1)) [cwd] [] = workspace at *
  generalize posixWalk (dir.map (·.1)) [path, cwd] [] = file at *
  rw [clean_posixText hworkspace, clean_posixText hfile]
  split
  next hnone =>
    subst hnone
    rw [root_split_prefix_iff hfile, Bool.or_eq_true, decide_eq_true_eq]
    simp
  next hsome =>
    rw [Bool.or_eq_true, Bool.not_eq_true', Bool.eq_false_iff, ne_eq, List.isPrefixOf_iff_prefix,
      List.isPrefixOf_iff_prefix, ← imp_iff_not_or]
    exact and_iff_left (splits_of_lead hsome)

end Posix

/-! ### On Windows -/

section Win32

variable {proc : Win32Process}

theorem location_norm (text : Text) : (Platform.win32 proc).location (norm text) =
    (Platform.win32 proc).location text := by
  simp only [Platform.location, splitOnP_norm]

theorem win32_confined_iff :
    Confined (.win32 proc) cwd path (answer (.win32 proc) cwd path) ↔ fits (.win32 proc) cwd path = true := by
  have hplain : ∀ paths, ∀ name ∈ (win32Walk proc paths none false []).names, Plain name :=
    fun paths => plain_win32Walk (by simp)
  rw [confined_iff, not_escapes_iff, WorkspaceFiles.abs, location_norm]
  simp only [Platform.resolve, fits]
  simp only [List.reverse_cons, List.reverse_nil, List.nil_append, List.singleton_append]
  have hworkspace := hplain [cwd]
  have hfile := hplain [path, cwd]
  generalize win32Walk proc [cwd] none false [] = workspace at *
  generalize win32Walk proc [path, cwd] none false [] = file at *
  have hlet : workspace.text.splitOnP isSeparator <+: file.text.splitOnP isSeparator ↔
      file = workspace ∨ workspace.names ≠ [] ∧ file.device = workspace.device ∧
        workspace.names <+: file.names := by
    rw [splitOnP_text hworkspace, splitOnP_text hfile, device_prefix_iff, behind_prefix_iff hworkspace hfile]
    cases workspace
    cases file
    simp only [WinPath.mk.injEq]
    tauto
  rw [← location_norm workspace.text, ← location_norm file.text, location_text hworkspace,
    location_text hfile, hlet]
  simp only [Location.Below, Option.some.injEq]
  have hinside : (file = workspace ∨ workspace.names ≠ [] ∧ file.device = workspace.device ∧
      workspace.names <+: file.names) → proc.fold file.device.text = proc.fold workspace.device.text ∧
        workspace.names.map proc.fold <+: file.names.map proc.fold := by
    rintro (rfl | ⟨-, hdevice, hlead⟩)
    · exact ⟨rfl, List.prefix_rfl⟩
    · exact ⟨by rw [hdevice], hlead.map _⟩
  rw [and_iff_right hinside]
  simp only [Bool.or_eq_true, Bool.not_eq_true', Bool.and_eq_true, decide_eq_true_eq, Bool.eq_false_iff, ne_eq,
    List.isPrefixOf_iff_prefix]
  tauto

end Win32

/-- What is read of a spawn is confined to its workspace exactly if the path fits it. -/
theorem files_confined_iff (platform : Platform) (spawnCwd : String → Option Text) (spawnId : String)
    (path : Text) :
    (∀ cwd, spawnCwd spawnId = some cwd → cwd ≠ [] →
      Confined platform cwd path fun fs => readFile platform spawnCwd fs spawnId path) ↔
      ∀ cwd, spawnCwd spawnId = some cwd → cwd ≠ [] → fits platform cwd path = true := by
  refine forall_congr' fun cwd => forall_congr' fun hcwd => forall_congr' fun hsome => ?_
  have hread : (fun fs => readFile platform spawnCwd fs spawnId path) = answer platform cwd path := by
    funext fs
    simp only [readFile, hcwd, if_neg hsome]
    rfl
  rw [hread]
  cases platform with
  | posix dir => exact posix_confined_iff
  | win32 proc => exact win32_confined_iff

end Command

def smallCwd (spawnId : String) : Option Text := if spawnId = "s1" then some "/w".toList else none

/-- The backslashes are no separators when the path is resolved, and slashes when it is opened. -/
theorem backslashes_leave_workspace : ¬ ∀ cwd, smallCwd "s1" = some cwd → cwd ≠ [] →
    Confined (.posix []) cwd "..\\..\\etc\\passwd".toList
      fun fs => readFile (.posix []) smallCwd fs "s1" "..\\..\\etc\\passwd".toList := by
  intro hconfined
  have hreads : readFile (.posix []) smallCwd (fun _ => .ok "root") "s1" "..\\..\\etc\\passwd".toList = .content "root" := by
    decide
  have hbelow := (hconfined "/w".toList (by decide) (by decide)).inside (fun _ => .ok "root") "root" hreads
  revert hbelow
  decide

end FileConfinement
