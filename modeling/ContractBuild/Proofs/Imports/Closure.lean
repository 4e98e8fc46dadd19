import ContractBuild.Proofs.Imports.Rounds
import ContractBuild.Proofs.Imports.Segments
import Mathlib.Data.Set.Card

/-!
# The closure of imports

For a compiler that reports the imports it cannot resolve, the import loop ends with a request that
holds the sources reachable from the first request and no others. Nothing else is supplied, because
a report is about an import of a source that is reachable already. Nothing is left out, because the
last response reports nothing that was not supplied. And it ends, because every round but the last
supplies a reachable source that was not there before. Cycles and sources that several others import
make no difference to this.
-/

namespace ContractBuild.ImportLoop
open Imports

def entry (give : String → String) (sources : List (String × Json)) (name : String) : Json :=
  (Table.find? name sources).getD (sourceOf (give name))

inductive Reachable (importsOf : Json → List String) (give : String → String)
    (sources : List (String × Json)) : String → Prop
  | initial {name : String} :
    name ∈ sources.map Prod.fst → Reachable importsOf give sources name
  | imported {name d : String} : Reachable importsOf give sources name →
    d ∈ importsOf (entry give sources name) → Reachable importsOf give sources d

def Unresolved (importsOf : Json → List String) (current : List (String × Json))
    (d : String) : Prop :=
  d ∉ current.map Prod.fst ∧ ∃ name e, Table.find? name current = some e ∧ d ∈ importsOf e

/-- The diagnostics report the unresolved imports, and otherwise no missing source. -/
structure Reports (importsOf : Json → List String) (current : List (String × Json))
    (response : Json) : Prop where
  complete : ∀ d, Unresolved importsOf current d → ∃ m ∈ diagnostics response, ∃ reason : String,
    '\n' ∉ reason.toList ∧ m.text? "message" = some (notFound d reason)
  sound : ∀ m ∈ diagnostics response, ∀ message, m.text? "message" = some message →
    missingIn message = [] ∨ ∃ (d reason : String), Unresolved importsOf current d ∧
      '\n' ∉ reason.toList ∧ message = notFound d reason

/-- Reachable sources, each supplied once, with the contents that are given for them. -/
structure Grown (importsOf : Json → List String) (give : String → String)
    (sources : List (String × Json)) (supplied : List (String × String)) : Prop where
  distinct : (supplied.map Prod.fst).Nodup
  given : ∀ path contents, (path, contents) ∈ supplied → contents = give path
  reachable : ∀ path ∈ supplied.map Prod.fst,
    Reachable importsOf give sources path ∧ path ∉ sources.map Prod.fst

def Resolves {σ : Type} (importsOf : Json → List String) (give : String → String) (p : Program)
    (launch : Launcher σ) (members sources : List (String × Json)) : Prop :=
  ∀ supplied, Grown importsOf give sources supplied → ∀ w, ∃ exit found,
    (launch (p.arguments ++ ["--standard-json"])
      (some (Utf8.encodeChars (requestWith members sources supplied).chars)) w).1 = .ok exit ∧
    exit.success = true ∧ Json.ofBytes? exit.output = .ok found ∧
    Reports importsOf (supply sources supplied) found

variable {σ : Type} {p : Program} {launch : Launcher σ} {imports : Asked σ}
  {members sources current : List (String × Json)} {supplied : List (String × String)}
  {importsOf : Json → List String} {give : String → String} {log : Log} {name d : String}
  {e : Json}

theorem Reports.mem_missing_iff {response : Json}
    (quotable : ∀ e, ∀ d ∈ importsOf e, Quotable d)
    (reports : Reports importsOf current response) :
    d ∈ missingSources response ↔ Unresolved importsOf current d := by
  rw [mem_missingSources]
  constructor
  · intro h
    obtain ⟨m, mem, message, text, named⟩ := h
    rcases reports.sound m mem message text with none | ⟨d', reason, unresolved, line, rfl⟩
    · rw [none] at named
      cases named
    · obtain ⟨-, name, e, -, imported⟩ := id unresolved
      rw [missingIn_notFound (quotable e d' imported) line] at named
      rwa [List.mem_singleton.1 named]
  · intro unresolved
    obtain ⟨-, name, e, -, imported⟩ := id unresolved
    obtain ⟨m, mem, reason, line, text⟩ := reports.complete d unresolved
    refine ⟨m, mem, _, text, ?_⟩
    rw [missingIn_notFound (quotable e d imported) line]
    exact List.mem_cons_self

theorem Grown.find?_supply (grown : Grown importsOf give sources supplied)
    (found : Table.find? name (supply sources supplied) = some e) :
    Reachable importsOf give sources name ∧ e = entry give sources name := by
  have supplies := supplies_supply sources grown.distinct
  by_cases new : name ∈ supplied.map Prod.fst
  · obtain ⟨⟨path, contents⟩, mem, rfl⟩ := List.mem_map.1 new
    obtain ⟨reachable, other⟩ := grown.reachable path new
    have absent : Table.find? path sources = none := by
      rw [← Option.not_isSome_iff_eq_none, Table.find?_isSome_iff]
      exact other
    rw [supplies.given path contents mem, grown.given path contents mem] at found
    refine ⟨reachable, ?_⟩
    rw [entry, absent]
    exact (Option.some.inj found).symm
  · rw [supplies.kept name new] at found
    refine ⟨.initial (Table.find?_isSome_iff.1 (Option.isSome_of_eq_some found)), ?_⟩
    rw [entry, found]
    rfl

theorem Grown.unresolved_reachable (grown : Grown importsOf give sources supplied)
    (unresolved : Unresolved importsOf (supply sources supplied) d) :
    Reachable importsOf give sources d ∧ d ∉ sources.map Prod.fst := by
  obtain ⟨absent, name, e, found, imported⟩ := unresolved
  obtain ⟨reachable, rfl⟩ := grown.find?_supply found
  refine ⟨.imported reachable imported, fun own => absent ?_⟩
  rw [(supplies_supply sources grown.distinct).keys]
  exact List.mem_append_left _ own

theorem Resolves.response {x : Exchange}
    (resolves : Resolves importsOf give p launch members sources)
    (genuine : x.Genuine launch imports) (ran : x.isRun = true)
    (due : x.Due p members sources log) (grown : Grown importsOf give sources log.supplied) :
    ∃ found, x.response? = some found ∧ Reports importsOf (supply sources log.supplied) found := by
  cases x with
  | asked path answer => cases ran
  | ran arguments input result =>
    obtain ⟨rfl, rfl⟩ := due
    obtain ⟨w, rfl⟩ := genuine
    obtain ⟨exit, found, result, success, parsed, reports⟩ := resolves log.supplied grown w
    refine ⟨found, ?_, reports⟩
    simp only [Exchange.response?, result, success, parsed, if_true, Except.toOption]

/-- The induction is on the log: what is supplied was reported before, for a request that had grown
in this way. -/
theorem Conducted.grown (conducted : Conducted p launch imports members sources log)
    (quotable : ∀ e, ∀ d ∈ importsOf e, Quotable d)
    (resolves : Resolves importsOf give p launch members sources)
    (gives : ∀ path w, (imports path w).1 = .contents (give path)) {part : Log}
    (start : part <+: log) :
    Grown importsOf give sources part.supplied ∧
      ∀ path ∈ part.responses.flatMap missingSources,
        Reachable importsOf give sources path ∧ path ∉ sources.map Prod.fst := by
  have distinct : ∀ part : Log, part <+: log → (part.supplied.map Prod.fst).Nodup := by
    intro part start
    obtain ⟨later, rfl⟩ := start
    have all := conducted.supplied_distinct
    rw [Log.supplied_append, List.map_append] at all
    exact (List.nodup_append.1 all).1
  induction part using List.reverseRecOn with
  | nil => exact ⟨⟨.nil, nofun, nofun⟩, nofun⟩
  | append_singleton part x ih =>
    obtain ⟨grown, reported⟩ := ih ((List.prefix_append _ _).trans start)
    have due := conducted.due part x start
    have genuine := conducted.genuine x (start.subset (List.mem_append_right _ List.mem_cons_self))
    have distinct' := distinct _ start
    cases x with
    | ran arguments input result =>
      obtain ⟨found, response, reports⟩ := resolves.response genuine rfl due grown
      rw [supplied_concat rfl] at distinct' ⊢
      refine ⟨grown, fun path mem => ?_⟩
      have heard : Log.responses (part ++ [.ran arguments input result]) =
          Log.responses part ++ [found] := by
        rw [Log.responses_append]
        exact congrArg _ (List.filterMap_cons_some response)
      rw [heard, List.flatMap_append, List.flatMap_singleton, List.mem_append] at mem
      rcases mem with mem | mem
      · exact reported path mem
      · exact grown.unresolved_reachable ((reports.mem_missing_iff quotable).1 mem)
    | asked path answer =>
      obtain ⟨w, rfl⟩ := genuine
      rw [gives path w] at distinct' ⊢
      have more : Log.supplied (part ++ [.asked path (.contents (give path))]) =
          Log.supplied part ++ [(path, give path)] := Log.supplied_append part _
      have heard : Log.responses (part ++ [.asked path (.contents (give path))]) =
          Log.responses part := by
        rw [Log.responses_append]
        exact List.append_nil _
      rw [heard]
      refine ⟨⟨distinct', fun path' contents mem => ?_, fun path' mem => ?_⟩, reported⟩
      · rw [more, List.mem_append, List.mem_singleton] at mem
        rcases mem with mem | eq
        · exact grown.given path' contents mem
        · cases eq
          rfl
      · rw [more, List.map_append, List.mem_append] at mem
        rcases mem with mem | eq
        · exact grown.reachable path' mem
        · rw [List.mem_singleton.1 eq]
          exact reported path due

theorem Conducted.reports {before : Log} {x : Exchange}
    (conducted : Conducted p launch imports members sources log)
    (quotable : ∀ e, ∀ d ∈ importsOf e, Quotable d)
    (resolves : Resolves importsOf give p launch members sources)
    (gives : ∀ path w, (imports path w).1 = .contents (give path)) (start : before ++ [x] <+: log)
    (ran : x.isRun = true) :
    Grown importsOf give sources before.supplied ∧ ∃ found, x.response? = some found ∧
      Reports importsOf (supply sources before.supplied) found := by
  have mem := start.subset (List.mem_append_right _ List.mem_cons_self)
  have earlier := (List.prefix_append before [x]).trans start
  have grown := (conducted.grown quotable resolves gives earlier).1
  have due := conducted.due before x start
  exact ⟨grown, resolves.response (conducted.genuine x mem) ran due grown⟩

theorem Conducted.closed {found : Json}
    (conducted : Conducted p launch imports members sources log)
    (quotable : ∀ e, ∀ d ∈ importsOf e, Quotable d)
    (gives : ∀ path w, (imports path w).1 = .contents (give path))
    (reports : Reports importsOf (supply sources log.supplied) found)
    (asked : ∀ path ∈ missingSources found, path ∈ log.paths) (d : String) :
    ¬ Unresolved importsOf (supply sources log.supplied) d := by
  intro missing
  have reported := (reports.mem_missing_iff quotable).2 missing
  obtain ⟨answer, mem⟩ := Log.mem_paths_iff.1 (asked d reported)
  obtain ⟨w, rfl⟩ := conducted.genuine _ mem
  rw [gives d w, ← Log.mem_supplied_iff] at mem
  have known := (supplies_supply sources conducted.supplied_distinct).given d (give d) mem
  exact missing.1 (Table.find?_isSome_iff.1 (Option.isSome_of_eq_some known))

theorem Grown.reachable_mem_keys (grown : Grown importsOf give sources supplied)
    (closed : ∀ d, ¬ Unresolved importsOf (supply sources supplied) d)
    (reachable : Reachable importsOf give sources name) :
    name ∈ (supply sources supplied).map Prod.fst := by
  induction reachable with
  | initial own =>
    rw [(supplies_supply sources grown.distinct).keys]
    exact List.mem_append_left _ own
  | @imported name d _ imported ih =>
    by_contra absent
    obtain ⟨e, found⟩ := Option.isSome_iff_exists.1 (Table.find?_isSome_iff.2 ih)
    obtain ⟨-, rfl⟩ := grown.find?_supply found
    exact closed d ⟨absent, name, _, found, imported⟩

theorem Grown.find?_of_closed (grown : Grown importsOf give sources supplied)
    (closed : ∀ d, ¬ Unresolved importsOf (supply sources supplied) d) (name : String) :
    (name ∈ sources.map Prod.fst →
        Table.find? name (supply sources supplied) = Table.find? name sources) ∧
      (name ∉ sources.map Prod.fst → Reachable importsOf give sources name →
        Table.find? name (supply sources supplied) = some (sourceOf (give name))) ∧
      (¬ Reachable importsOf give sources name →
        Table.find? name (supply sources supplied) = none) := by
  have known : Reachable importsOf give sources name →
      Table.find? name (supply sources supplied) = some (entry give sources name) := by
    intro reachable
    obtain ⟨e, found⟩ := Option.isSome_iff_exists.1
      (Table.find?_isSome_iff.2 (grown.reachable_mem_keys closed reachable))
    rw [found, (grown.find?_supply found).2]
  refine ⟨fun own => ?_, fun other reachable => ?_, fun unreachable => ?_⟩
  · obtain ⟨e, found⟩ := Option.isSome_iff_exists.1 (Table.find?_isSome_iff.2 own)
    rw [known (.initial own), entry, found]
    rfl
  · have absent : Table.find? name sources = none := by
      rw [← Option.not_isSome_iff_eq_none, Table.find?_isSome_iff]
      exact other
    rw [known reachable, entry, absent]
    rfl
  · rw [← Option.not_isSome_iff_eq_none]
    intro present
    obtain ⟨e, found⟩ := Option.isSome_iff_exists.1 present
    exact unreachable (grown.find?_supply found).1

theorem Grown.length_le (grown : Grown importsOf give sources supplied)
    (finite : {name | Reachable importsOf give sources name}.Finite) :
    supplied.length ≤
      {name | Reachable importsOf give sources name ∧ name ∉ sources.map Prod.fst}.ncard := by
  have part : ((supplied.map Prod.fst).toFinset : Set String) ⊆
      {name | Reachable importsOf give sources name ∧ name ∉ sources.map Prod.fst} := by
    intro name mem
    exact grown.reachable name (List.mem_toFinset.1 mem)
  have count := Set.ncard_le_ncard part (finite.subset fun name mem => mem.1)
  rwa [Set.ncard_coe_finset, List.toFinset_card_of_nodup grown.distinct, List.length_map] at count

/-- For a program that reports unresolved imports, a callback that always has contents, and finitely
many reachable sources, the loop ends within one run more than sources are to be found, and the last
request holds the reachable sources: the first request's own ones as they were, and the others as
they are given. -/
theorem compile_closes_imports (p : Program) (launch : Launcher σ) (runs : Nat)
    (imports : Asked σ) (w : σ) {input : String}
    (request : Json.ofString? input = .ok (.object members))
    (own : Table.find? "sources" members = some (.object sources)) (starts : p.canStart = true)
    (quotable : ∀ e, ∀ d ∈ importsOf e, Quotable d)
    (resolves : Resolves importsOf give p launch members sources)
    (gives : ∀ path w, (imports path w).1 = .contents (give path))
    (finite : {name | Reachable importsOf give sources name}.Finite)
    (enough : {name | Reachable importsOf give sources name ∧
      name ∉ sources.map Prod.fst}.ncard < runs) :
    let log := exchanges p launch runs input imports w
    (∃ text, ((compile p launch runs input imports).run w).result = .ok text) ∧
      log.runs ≤ 1 + {name | Reachable importsOf give sources name ∧
        name ∉ sources.map Prod.fst}.ncard ∧
      ∃ (before : Log) (exit : Except FileFault Exit) (after : Log)
          (current : List (String × Json)),
        log = before ++ .ran (p.arguments ++ ["--standard-json"]) (some (Utf8.encodeChars
          (Json.object (Table.put "sources" (.object current) members)).chars)) exit :: after ∧
        after.runs = 0 ∧
        ∀ name, (name ∈ sources.map Prod.fst →
            Table.find? name current = Table.find? name sources) ∧
          (name ∉ sources.map Prod.fst → Reachable importsOf give sources name →
            Table.find? name current = some (sourceOf (give name))) ∧
          (¬ Reachable importsOf give sources name → Table.find? name current = none) := by
  intro log
  obtain ⟨o, sameResult, sameLog, settles⟩ := exchanges_spec p launch runs imports w request own
  change o.state.log = log at sameLog
  obtain ⟨conducted, -, bound, concluded, unsettled, failed, -⟩ := settles
  rw [sameLog] at conducted bound concluded unsettled failed
  rw [sameResult] at concluded unsettled failed
  have grown := (conducted.grown quotable resolves gives (List.prefix_refl log)).1
  have few := grown.length_le finite
  cases outcome : ((compile p launch runs input imports).run w).result with
  | error f =>
    -- Neither can the runs be used up, nor can one of them have failed.
    by_cases exhausted : f = .unsettled
    · subst exhausted
      have most := unsettled outcome
      omega
    · obtain ⟨x, mem, ran, silent⟩ := failed f outcome exhausted starts
      obtain ⟨before, after, eq⟩ := List.append_of_mem mem
      have start : before ++ [x] <+: log := ⟨after, by rw [eq, ← List.append_cons]⟩
      obtain ⟨-, found, response, -⟩ := conducted.reports quotable resolves gives start ran
      rw [silent] at response
      cases response
  | ok text =>
    obtain ⟨before, x, after, found, _, _, eq, response, noRuns, noSupply, -, -, -, asked, -⟩ :=
      concluded text outcome
    have start : before ++ [x] <+: log := ⟨after, by rw [eq, ← List.append_cons]⟩
    cases x with
    | asked path answer => cases response
    | ran arguments stdin exit =>
      obtain ⟨-, found', response', reports⟩ := conducted.reports quotable resolves gives start rfl
      obtain rfl : found = found' := Option.some.inj (response.symm.trans response')
      obtain ⟨rfl, rfl⟩ := conducted.due before _ start
      have all : before.supplied = log.supplied := by
        rw [eq, List.append_cons, Log.supplied_append, supplied_concat rfl, noSupply,
          List.append_nil]
      rw [all] at reports eq
      have closed := conducted.closed quotable gives reports asked
      refine ⟨⟨text, rfl⟩, by omega, before, exit, after, supply sources log.supplied, eq, noRuns,
        fun name => ?_⟩
      exact grown.find?_of_closed closed name

def twinImports (e : Json) : List String :=
  match e.text? "content" with
  | some text => [text].filter (· ∈ ["a.sol", "b.sol"])
  | none => []

def twinSources : List (String × Json) := [("a.sol", sourceOf "b.sol")]

def twinMembers : List (String × Json) := [("sources", .object twinSources)]

def twinReport : Json := .object [("message", .string (notFound "b.sol" "no such file"))]

def twinLauncher : Launcher Unit := fun _ input _ =>
  let first := some (Utf8.encodeChars (requestWith twinMembers twinSources []).chars)
  let errors := if input = first then [twinReport] else []
  (.ok ⟨true, Utf8.encodeChars (Json.object [("errors", .array errors)]).chars, []⟩, ())

theorem mem_twinImports (imported : d ∈ twinImports e) : d = "a.sol" ∨ d = "b.sol" := by
  unfold twinImports at imported
  split at imported
  · simpa using (List.mem_filter.1 imported).2
  · cases imported

theorem twin_quotable (e : Json) (d : String) (imported : d ∈ twinImports e) : Quotable d := by
  rcases mem_twinImports imported with rfl | rfl <;> exact ⟨by decide, by decide⟩

theorem twin_reachable (reachable : Reachable twinImports (fun _ => "a.sol") twinSources name) :
    name = "a.sol" ∨ name = "b.sol" := by
  cases reachable with
  | initial own => exact .inl (List.mem_singleton.1 own)
  | imported _ imported => exact mem_twinImports imported

theorem twin_grown (grown : Grown twinImports (fun _ => "a.sol") twinSources supplied) :
    supplied = [] ∨ supplied = [("b.sol", "a.sol")] := by
  have only : ∀ s ∈ supplied, s = ("b.sol", "a.sol") := by
    intro s mem
    obtain ⟨path, contents⟩ := s
    obtain ⟨reachable, other⟩ := grown.reachable path (List.mem_map_of_mem mem)
    rcases twin_reachable reachable with rfl | rfl
    · exact absurd List.mem_cons_self other
    · rw [grown.given _ contents mem]
  match supplied, grown.distinct, only with
  | [], _, _ => exact .inl rfl
  | [s], _, only => exact .inr (by rw [only s List.mem_cons_self])
  | s :: t :: _, distinct, only =>
    rw [only s List.mem_cons_self, only t (List.mem_cons_of_mem _ List.mem_cons_self)] at distinct
    exact absurd List.mem_cons_self (List.nodup_cons.1 distinct).1

theorem twin_resolves :
    Resolves twinImports (fun _ => "a.sol") ⟨"solc", []⟩ twinLauncher twinMembers twinSources := by
  intro supplied grown w
  rcases twin_grown grown with rfl | rfl
  · refine ⟨_, .object [("errors", .array [twinReport])], rfl, rfl, by decide +kernel, ?_, ?_⟩
    · intro d ⟨other, name, e, _, imported⟩
      rcases mem_twinImports imported with rfl | rfl
      · exact absurd List.mem_cons_self other
      · exact ⟨twinReport, List.mem_cons_self, "no such file", by decide, rfl⟩
    · intro m mem message text
      obtain rfl := List.mem_singleton.1 mem
      refine .inr ⟨"b.sol", "no such file", ⟨by decide, "a.sol", sourceOf "b.sol", rfl, ?_⟩,
        by decide, (Option.some.inj text).symm⟩
      decide
  · refine ⟨_, .object [("errors", .array [])], rfl, rfl, by decide +kernel, ?_, nofun⟩
    intro d ⟨other, name, e, _, imported⟩
    have both : ∀ d, d = "a.sol" ∨ d = "b.sol" →
        d ∈ (supply twinSources [("b.sol", "a.sol")]).map Prod.fst := by
      intro d either
      rcases either with rfl | rfl <;> decide
    exact absurd (both d (mem_twinImports imported)) other

theorem twin_found :
    {name | Reachable twinImports (fun _ => "a.sol") twinSources name ∧
      name ∉ twinSources.map Prod.fst} = {"b.sol"} := by
  ext name
  constructor
  · intro h
    obtain ⟨reachable, other⟩ := h
    rcases twin_reachable reachable with rfl | rfl
    · exact absurd List.mem_cons_self other
    · rfl
  · intro eq
    subst eq
    exact ⟨.imported (.initial List.mem_cons_self) (by decide), by decide⟩

theorem compile_closes_imports_twins :
    Resolves twinImports (fun _ => "a.sol") ⟨"solc", []⟩ twinLauncher twinMembers twinSources ∧
      (let log := exchanges ⟨"solc", []⟩ twinLauncher 2 (Json.object twinMembers).text
        (fun _ _ => (.contents "a.sol", ())) ()
      log.runs ≤ 2 ∧ ∃ (before : Log) (exit : Except FileFault Exit) (after : Log)
          (current : List (String × Json)),
        log = before ++ .ran ["--standard-json"] (some (Utf8.encodeChars
          (Json.object (Table.put "sources" (.object current) twinMembers)).chars)) exit :: after ∧
        Table.find? "b.sol" current = some (sourceOf "a.sol")) := by
  have request : Json.ofString? (Json.object twinMembers).text = .ok (.object twinMembers) := by
    decide +kernel
  have finite : {name | Reachable twinImports (fun _ => "a.sol") twinSources name}.Finite :=
    (Set.toFinite {"a.sol", "b.sol"}).subset fun _ reachable => twin_reachable reachable
  have one : {name | Reachable twinImports (fun _ => "a.sol") twinSources name ∧
      name ∉ twinSources.map Prod.fst}.ncard = 1 := by
    rw [twin_found, Set.ncard_singleton]
  obtain ⟨-, bound, before, exit, after, current, eq, -, holds⟩ :=
    compile_closes_imports ⟨"solc", []⟩ twinLauncher 2 (fun _ _ => (.contents "a.sol", ())) ()
      request rfl rfl twin_quotable twin_resolves (fun _ _ => rfl) finite (by rw [one]; decide)
  rw [one] at bound
  refine ⟨twin_resolves, bound, before, exit, after, current, eq, ?_⟩
  exact (holds "b.sol").2.1 (by decide) (.imported (.initial List.mem_cons_self) (by decide))

end ContractBuild.ImportLoop
