import ContractBuild.Compiler.SingleSource
import ContractBuild.Proofs.Registry.CachePaths

/-!
# Lookups below the root of a project

An import of a parsed source is looked up at the path that joins the root of the project and the
import. What is found depends on the project alone exactly if every import that may lead to a file
stays in the project, or on the way to its root, all along. A relative import without `..` always
does. Any other may show what stands beside the project.
-/

namespace ContractBuild

namespace FileTree

variable {files files' : FileTree} {base p q : Place} {ns ms start : List String}
  {name path root : String}

def Passes (names : List String) (p : Place) : Prop := ∃ start, start <+: names ∧ goal start = p

theorem passes_goal (names : List String) : Passes names (goal names) :=
  ⟨names, List.prefix_rfl, rfl⟩

theorem Passes.extend (passes : Passes start p) (part : start <+: ns) : Passes ns p := by
  obtain ⟨front, part', rfl⟩ := passes
  exact ⟨front, part'.trans part, rfl⟩

theorem follow_congr (same : files.entry? p = files'.entry? p) (name : String) :
    files.follow p name = files'.follow p name := by
  unfold follow directory
  rw [same]

theorem walk_congr (same : ∀ p, Passes ns p → files.entry? p = files'.entry? p) :
    files.walk ns = files'.walk ns := by
  induction ns using List.reverseRecOn with
  | nil => rfl
  | append_singleton ns name ih =>
    have part : ns <+: ns ++ [name] := List.prefix_append ns [name]
    rw [walk_concat, walk_concat, ← ih fun p passes => same p (passes.extend part)]
    cases walked : files.walk ns with
    | error fault => rfl
    | ok place =>
      obtain rfl := walk_eq_ok walked
      exact follow_congr (same _ ((passes_goal ns).extend part)) name

theorem locate_congr (same : ∀ ns, FileTree.names path = .ok ns → ∀ p, Passes ns p →
    files.entry? p = files'.entry? p) : files.locate path = files'.locate path := by
  unfold locate
  cases path.isEmpty with
  | true => rfl
  | false =>
    cases named : FileTree.names path with
    | error fault => rfl
    | ok ns => exact walk_congr (same ns named)

theorem lookup_congr (same : ∀ ns, FileTree.names path = .ok ns → ∀ p, Passes ns p →
    files.entry? p = files'.entry? p) : files.lookup path = files'.lookup path := by
  unfold lookup
  rw [← locate_congr same]
  cases located : files.locate path with
  | error fault => rfl
  | ok place =>
    obtain ⟨-, ns, named, walked⟩ := locate_eq_ok_iff.1 located
    obtain rfl := walk_eq_ok walked
    have entry := same ns named _ (passes_goal ns)
    simp only [Bind.bind, Except.bind, entry]

theorem entry?_of_walk (walked : files.walk ns = .ok p) (part : start <+: ns) (before : start ≠ ns) :
    files.entry? (goal start) = some .directory := by
  induction ns using List.reverseRecOn generalizing p with
  | nil => exact absurd (List.prefix_nil.1 part) before
  | append_singleton ns name ih =>
    rw [walk_concat] at walked
    obtain ⟨above, walked, followed⟩ := bind_eq_ok_iff.1 walked
    rcases List.prefix_concat_iff.1 part with whole | part
    · exact absurd whole before
    · by_cases last : start = ns
      · rw [last, ← walk_eq_ok walked]
        exact (follow_eq_ok_iff.1 followed).1
      · exact ih walked part last

theorem entry?_of_passes_directory (directory : files.isDirectory ns = true) (passes : Passes ns p) :
    files.entry? p = some .directory := by
  obtain ⟨start, part, rfl⟩ := passes
  have above : files.isDirectory start = true := isDirectory_of_prefix part directory
  exact (isDirectory_iff.1 above).2

theorem isDirectory_congr (same : ∀ p, Passes ns p → files.entry? p = files'.entry? p) :
    files.isDirectory ns = files'.isDirectory ns := by
  rw [Bool.eq_iff_iff, isDirectory_iff, isDirectory_iff, walk_congr same, same _ (passes_goal ns)]

theorem isFile_iff : files.isFile path = true ↔
    ∃ content, files.lookup path = .ok (.file content) := by
  unfold isFile
  split
  · rename_i content found
    exact ⟨fun _ => ⟨content, found⟩, fun _ => rfl⟩
  · rename_i none
    exact ⟨nofun, fun ⟨content, found⟩ => absurd found (none content)⟩

theorem lookup_eq_ok_iff {e : Entry} : files.lookup path = .ok e ↔ ∃ ns,
    FileTree.names path = .ok ns ∧ path.isEmpty = false ∧ files.walk ns = .ok (goal ns) ∧
      files.entry? (goal ns) = some e := by
  have found : files.lookup path = .ok e ↔ files.at? path = some e := by
    unfold at?
    cases files.lookup path <;> simp [Except.toOption]
  rw [found, at?_eq_some_iff]
  constructor
  · rintro ⟨place, located, entry⟩
    obtain ⟨filled, ns, named, walked⟩ := locate_eq_ok_iff.1 located
    obtain rfl := walk_eq_ok walked
    exact ⟨ns, named, filled, walked, entry⟩
  · rintro ⟨ns, named, filled, walked, entry⟩
    exact ⟨_, locate_eq_ok_iff.2 ⟨filled, ns, named, walked⟩, entry⟩

def HasRoot (files : FileTree) (root : String) (base : Place) : Prop :=
  ∃ ns, FileTree.names root = .ok ns ∧ files.isDirectory ns = true ∧ goal ns = base

def AgreeBelow (base : Place) (files files' : FileTree) : Prop :=
  ∀ p, base <+: p → files.entry? p = files'.entry? p

/-- The way of a path from the root of a project does not leave the project, but for places that the
way to the root passes too. -/
def Stays (root path : String) : Prop :=
  ∀ ns ms, FileTree.names root = .ok ns → FileTree.names (Path.join root path) = .ok ms →
    ∀ p, Passes ms p → Passes ns p ∨ goal ns <+: p

/-- There may be a file under this path in a project. -/
def Findable (root path : String) : Prop :=
  ∃ files base, HasRoot files root base ∧ files.isFile (Path.join root path) = true

theorem lookup_of_stays (rooted : HasRoot files root base) (rooted' : HasRoot files' root base)
    (agree : AgreeBelow base files files') (stays : Stays root path) :
    files.lookup (Path.join root path) = files'.lookup (Path.join root path) := by
  obtain ⟨ns, named, directory, rfl⟩ := rooted
  obtain ⟨ns', named', directory', -⟩ := rooted'
  rw [named] at named'
  cases named'
  refine lookup_congr fun ms named' p passes => ?_
  rcases stays ns ms named named' p passes with toRoot | below
  · rw [entry?_of_passes_directory directory toRoot, entry?_of_passes_directory directory' toRoot]
  · exact agree p below

theorem after_of_level (level : name ≠ "..") (place : Place) : place <+: after place name := by
  unfold after
  rw [if_neg level]
  split
  · exact List.prefix_rfl
  · exact List.prefix_append place [name]

theorem foldl_after_of_level (level : ".." ∉ ns) (place : Place) :
    place <+: ns.foldl after place := by
  induction ns generalizing place with
  | nil => exact List.prefix_rfl
  | cons name ns ih =>
    rw [List.mem_cons, not_or] at level
    exact (after_of_level (Ne.symm level.1) place).trans (ih level.2 _)

theorem stays_of_level (relative : Path.isAbsolute path = false)
    (level : ".." ∉ (Text.split '/' path.toList).map String.ofList) : Stays root path := by
  rintro ns ms named named' p ⟨start, part, rfl⟩
  have ends : ns = Registry.Setup.enclosing root ∨ ns = Registry.Setup.enclosing root ++ [""] := by
    rw [Registry.Setup.names_eq_ok named]
    exact Registry.Setup.split_directory root
  have above : Registry.Setup.enclosing root <+: ns := by
    rcases ends with eq | eq <;> simp [eq]
  have base : goal ns = goal (Registry.Setup.enclosing root) := by
    rcases ends with eq | eq
    · rw [eq]
    · rw [eq, goal_concat, after, if_pos (.inl rfl)]
  rw [Registry.Setup.names_eq_ok named', Registry.Setup.split_join_relative relative] at part
  rcases List.prefix_or_prefix_of_prefix part (List.prefix_append _ _) with short | ⟨rest, rfl⟩
  · exact .inl ⟨start, short.trans above, rfl⟩
  · rw [List.prefix_append_right_inj] at part
    refine .inr ?_
    rw [base, goal, goal, List.foldl_append]
    exact foldl_after_of_level (fun mem => level (part.subset mem)) _

theorem isFile_iff_walk (named : FileTree.names path = .ok ns) :
    files.isFile path = true ↔ path.isEmpty = false ∧ files.walk ns = .ok (goal ns) ∧
      ∃ content, files.entry? (goal ns) = some (.file content) := by
  rw [isFile_iff]
  constructor
  · intro ⟨content, looked⟩
    obtain ⟨ns', named', filled, walked, entry⟩ := lookup_eq_ok_iff.1 looked
    rw [named] at named'
    cases named'
    exact ⟨filled, walked, content, entry⟩
  · intro ⟨filled, walked, content, entry⟩
    exact ⟨content, lookup_eq_ok_iff.2 ⟨ns, named, filled, walked, entry⟩⟩

theorem put_file {content : Bytes} (entry : files.entry? p = some (.file content))
    (content' : Bytes) :
    Put files (SortedMap.insert files p (.file content')) p (some (.file content')) :=
  entry?_insert (ne_nil_of_file entry) _

theorem keeps_of_file {content content' : Bytes} (entry : files.entry? p = some (.file content))
    (put : Put files files' p (some (.file content'))) : Keeps files files' :=
  put.keeps (by rw [entry]; nofun)

theorem isFile_of_missing (named : FileTree.names path = .ok ns) (passes : Passes ns p)
    (missing : files.entry? p = none) : files.isFile path = false := by
  by_contra found
  rw [Bool.not_eq_false, isFile_iff_walk named] at found
  obtain ⟨-, walked, content, entry⟩ := found
  obtain ⟨start, part, rfl⟩ := passes
  by_cases last : start = ns
  · rw [last, entry] at missing
    cases missing
  · rw [entry?_of_walk walked part last] at missing
    cases missing

theorem HasRoot.keep (rooted : HasRoot files root base) (keeps : Keeps files files') :
    HasRoot files' root base := by
  obtain ⟨ns, named, directory, rfl⟩ := rooted
  exact ⟨ns, named, keeps.isDirectory directory, rfl⟩

end FileTree

/-- What a compiler does depends on the answers for such imports and for no others. -/
def Compiler.AsksOnly {σ : Type} (c : Compiler σ) (asked : String → Prop) : Prop :=
  ∀ entry input (imports imports' : Asked σ),
    (∀ path s, asked path → imports path s = imports' path s) →
      c.call entry input (some imports) = c.call entry input (some imports')

namespace SingleSource

open FileTree

variable {σ : Type} {files files' : FileTree} {base : FileTree.Place} {root path : String}
  {asked : String → Prop}

theorem readOrStub_of_not_isFile (none : files.isFile (Path.join root path) = false) :
    readOrStub files (some root) path = stub := by
  simp [readOrStub, none]

theorem readOrStub_of_lookup {content : Bytes}
    (looked : files.lookup (Path.join root path) = .ok (.file content)) :
    readOrStub files (some root) path = (Utf8.decode content).toOption.getD stub := by
  have file : files.isFile (Path.join root path) = true := isFile_iff.2 ⟨content, looked⟩
  have text : files.readText (Path.join root path) =
      (Utf8.decode content).mapError fun _ => .notText := by
    simp [readText, FileTree.read, looked, Bind.bind, Except.bind]
  simp only [readOrStub, Option.bind_eq_bind, Option.bind_some, file, text, if_true]
  cases Utf8.decode content <;> rfl

theorem readOrStub_congr
    (same : files.lookup (Path.join root path) = files'.lookup (Path.join root path)) :
    readOrStub files (some root) path = readOrStub files' (some root) path := by
  simp [readOrStub, isFile, readText, FileTree.read, same]

theorem remappings_congr (same : files.lookup (Path.join root Manifest.fileName) =
    files'.lookup (Path.join root Manifest.fileName)) :
    Manifest.remappings files root = Manifest.remappings files' root := by
  simp [Manifest.remappings, isFile, readText, FileTree.read, same]

theorem stays_manifest (root : String) : Stays root Manifest.fileName :=
  stays_of_level (by decide) (by decide)

theorem invoke_congr {c : Compiler σ} (only : c.AsksOnly asked) (request : Request)
    (imports imports' : Asked σ) (same : ∀ path s, asked path → imports path s = imports' path s) :
    c.invoke request (some imports) = c.invoke request (some imports') := by
  simp only [Compiler.invoke, only _ _ _ _ same]

theorem parse_congr {c : Compiler σ} (only : c.AsksOnly asked) (body : String)
    (name : Option String)
    (manifest : Manifest.remappings files root = Manifest.remappings files' root)
    (same : ∀ path, asked path →
      readOrStub files (some root) path = readOrStub files' (some root) path) :
    parse c files body name (some root) = parse c files' body name (some root) := by
  let answer (files : FileTree) : Asked σ :=
    fun path s => (.contents (readOrStub files (some root) path), s)
  have invoked (request : Request) :
      c.invoke request (some (answer files)) = c.invoke request (some (answer files')) :=
    invoke_congr only request _ _ fun path s mem => by simp only [answer, same path mem]
  simp only [answer] at invoked
  simp only [parse, manifest, invoked]

/-- Whoever asks for such imports learns nothing of what stands elsewhere than in the project. -/
def Confined (root : String) (asked : String → Prop) : Prop :=
  ∀ files files' base, HasRoot files root base → HasRoot files' root base →
    AgreeBelow base files files' →
      (∀ path, asked path →
        readOrStub files (some root) path = readOrStub files' (some root) path) ∧
      ∀ (σ : Type) (c : Compiler σ), c.AsksOnly asked → ∀ body name,
        parse c files body name (some root) = parse c files' body name (some root)

theorem confined_of_stays
    (stays : ∀ path, asked path → Findable root path → Stays root path) :
    Confined root asked := by
  intro files files' base rooted rooted' agree
  have answers (path : String) (mem : asked path) :
      readOrStub files (some root) path = readOrStub files' (some root) path := by
    by_cases findable : Findable root path
    · exact readOrStub_congr (lookup_of_stays rooted rooted' agree (stays path mem findable))
    · have none {files : FileTree} (rooted : HasRoot files root base) :
          files.isFile (Path.join root path) = false := by
        by_contra found
        rw [Bool.not_eq_false] at found
        exact findable ⟨files, base, rooted, found⟩
      rw [readOrStub_of_not_isFile (none rooted), readOrStub_of_not_isFile (none rooted')]
  have manifest := remappings_congr (lookup_of_stays rooted rooted' agree (stays_manifest root))
  exact ⟨answers, fun _ _ only body name => parse_congr only body name manifest answers⟩

theorem exists_answers_apart (findable : Findable root path) (leaves : ¬ Stays root path) :
    ∃ files files' base, HasRoot files root base ∧ HasRoot files' root base ∧
      AgreeBelow base files files' ∧
      readOrStub files (some root) path ≠ readOrStub files' (some root) path := by
  obtain ⟨files, base, rooted, file⟩ := findable
  unfold Stays at leaves
  push Not at leaves
  obtain ⟨ns, ms, named, joined, p, passes, aside, outside⟩ := leaves
  obtain ⟨filled, walked, content, entry⟩ := (isFile_iff_walk joined).1 file
  let full : FileTree := SortedMap.insert files (goal ms) (.file (Utf8.encode "x"))
  have put : Put files full (goal ms) _ := put_file entry _
  have keeps : Keeps files full := keeps_of_file entry put
  have looked : full.lookup (Path.join root path) = .ok (.file (Utf8.encode "x")) :=
    lookup_eq_ok_iff.2 ⟨ms, joined, filled, keeps.walk walked, put.self⟩
  let lacking : FileTree := SortedMap.erase full p
  have away : p ≠ [] := by
    intro root
    exact aside (root ▸ ⟨[], List.nil_prefix, rfl⟩)
  have removed : Put full lacking p none := entry?_erase away
  obtain ⟨ns', named', directory, rfl⟩ := rooted.keep keeps
  rw [named] at named'
  cases named'
  refine ⟨full, lacking, goal ns, ⟨ns, named, directory, rfl⟩, ⟨ns, named, ?_, rfl⟩, ?_, ?_⟩
  · rw [← isDirectory_congr fun q onWay => (removed.other ?_).symm]
    · exact directory
    · rintro rfl
      exact aside onWay
  · intro q below
    refine (removed.other ?_).symm
    rintro rfl
    exact outside below
  · rw [readOrStub_of_lookup looked,
      readOrStub_of_not_isFile (isFile_of_missing joined passes removed.self)]
    decide +kernel

theorem handed_out (rooted : HasRoot files root base) (stays : Stays root path)
    (read : readOrStub files (some root) path ≠ stub) : ∃ p content,
      base <+: p ∧ p ≠ base ∧ files.entry? p = some (.file content) ∧
        Utf8.decode content = .ok (readOrStub files (some root) path) := by
  obtain ⟨ns, named, directory, rfl⟩ := rooted
  by_cases file : files.isFile (Path.join root path) = true
  · obtain ⟨content, looked⟩ := isFile_iff.1 file
    obtain ⟨ms, joined, -, -, entry⟩ := lookup_eq_ok_iff.1 looked
    have apart {q : FileTree.Place} (here : files.entry? q = some .directory) : goal ms ≠ q := by
      rintro rfl
      rw [entry] at here
      cases here
    have below : goal ns <+: goal ms := by
      refine (stays ns ms named joined _ (passes_goal ms)).resolve_left fun toRoot => ?_
      exact apart (entry?_of_passes_directory directory toRoot) rfl
    refine ⟨goal ms, content, below, apart (isDirectory_iff.1 directory).2, entry, ?_⟩
    rw [readOrStub_of_lookup looked] at read ⊢
    cases text : Utf8.decode content with
    | ok text => rfl
    | error fault =>
      rw [text] at read
      exact absurd rfl read
  · rw [Bool.not_eq_true] at file
    exact absurd (readOrStub_of_not_isFile file) read

/-- Lookups tell of the project alone exactly if every import under which there may be a file stays
in the project. -/
theorem lookups_confined_iff (root : String) (asked : String → Prop) :
    (Confined root asked ↔ ∀ path, asked path → Findable root path → Stays root path) ∧
    (∀ path, Path.isAbsolute path = false →
      ".." ∉ (Text.split '/' path.toList).map String.ofList → Stays root path) ∧
    ∀ files base path, HasRoot files root base → Stays root path →
      readOrStub files (some root) path ≠ stub → ∃ p content,
        base <+: p ∧ p ≠ base ∧ files.entry? p = some (.file content) ∧
          Utf8.decode content = .ok (readOrStub files (some root) path) := by
  refine ⟨⟨fun confined path mem findable => ?_, confined_of_stays⟩,
    fun _ => stays_of_level, fun _ _ _ => handed_out⟩
  by_contra leaves
  obtain ⟨files, files', base, rooted, rooted', agree, apart⟩ :=
    exists_answers_apart findable leaves
  exact apart ((confined files files' base rooted rooted' agree).1 path mem)

def project : FileTree :=
  .ofList [(["project"], .directory),
    (["project", "a.sol"], .file (Utf8.encode "contract A {}"))]

def besideSecret : FileTree :=
  SortedMap.insert project ["secret.sol"] (.file (Utf8.encode "contract Secret {}"))

theorem lookups_confined_iff_plain :
    Confined "project" (fun path => path = "a.sol") ∧
    HasRoot besideSecret "project" ["project"] ∧
    readOrStub besideSecret (some "project") "a.sol" = "contract A {}" := by
  obtain ⟨confined, level, -⟩ := lookups_confined_iff "project" fun path => path = "a.sol"
  refine ⟨confined.2 ?_, ⟨["project"], by decide +kernel⟩, by decide +kernel⟩
  rintro _ rfl _
  exact level _ (by decide) (by decide)

def probing (path : String) : Compiler Unit where
  name := "probing"
  exposes entry := entry = .compileStandard
  call _ _ imports := match imports with
    | none => pure "\x7b\x7d"
    | some ask => match (ask path ()).1 with
      | .contents text => Job.fail (.message text)
      | .error reason => Job.fail (.message reason)
  version := pure "0.5.4"

/-- A path that goes up and an absolute path both lead to the file beside the project. -/
theorem secret_handed_out :
    HasRoot project "project" ["project"] ∧ HasRoot besideSecret "project" ["project"] ∧
    AgreeBelow ["project"] project besideSecret ∧
    ∀ path ∈ ["../secret.sol", "/secret.sol"],
      readOrStub project (some "project") path = stub ∧
      readOrStub besideSecret (some "project") path = "contract Secret {}" ∧
      ((parse (probing path) project "" none (some "project")).run ()).result =
        .error (.message stub) ∧
      ((parse (probing path) besideSecret "" none (some "project")).run ()).result =
        .error (.message "contract Secret {}") := by
  refine ⟨⟨["project"], by decide +kernel⟩, ⟨["project"], by decide +kernel⟩, ?_, ?_⟩
  · intro p below
    have other : p ≠ ["secret.sol"] := by
      rintro rfl
      revert below
      decide
    rw [besideSecret, entry?_insert (by simp), if_neg other]
  · intro path mem
    simp only [List.mem_cons, List.not_mem_nil, or_false] at mem
    rcases mem with rfl | rfl
    · exact ⟨by decide +kernel, by decide +kernel, rfl, rfl⟩
    · exact ⟨by decide +kernel, by decide +kernel, rfl, rfl⟩

end SingleSource
end ContractBuild
