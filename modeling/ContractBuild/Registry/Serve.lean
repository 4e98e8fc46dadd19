import ContractBuild.Build
import ContractBuild.Compiler.Basic
import ContractBuild.Registry.Step

/-! A registry with one caller at a time. While the caller waits, the worker of its download
gets as far as it can; a caller that then has no result gives up. -/

namespace ContractBuild.Registry

inductive Work
  | write (content : Bytes)
  | finish (verdict : Verdict)
  | die
  deriving DecidableEq, Repr

variable {μ σ : Type}

/-- The actions of a worker for its work; a write can be the end of the download. -/
def Work.actions (d : Nat) : Work → List (Action μ)
  | write content => [.write d content, .settle d, .send d]
  | finish verdict => [.finish d verdict, .settle d, .send d]
  | die => [.die d]

structure Host (μ σ : Type) where
  load : String → FileTree → σ → Except Failure μ × σ
  work : Nat → σ → List Work × σ

def act (setup : Setup) (s : State μ) (a : Action μ) : State μ := (step setup s a).getD s

def proceed (setup : Setup) (d : Nat) (works : List Work) (s : State μ) : State μ :=
  (works.flatMap (Work.actions d)).foldl (act setup) s

/-- The steps of one caller up to its answer, at most so many. -/
def drive (setup : Setup) (host : Host μ σ) (c : Nat) :
    Nat → State μ × σ → State μ × σ
  | 0, s => s
  | fuel + 1, (s, world) => match s.callers[c]? with
    | some ⟨v, .load⟩ =>
      let (result, world) := host.load (setup.binary v) s.files world
      drive setup host c fuel (act setup s (.loaded c result), world)
    | some ⟨_, .waiting d⟩ =>
      let (works, world) := host.work d world
      let s := proceed setup d works s
      drive setup host c fuel ((step setup s (.advance c)).getD (act setup s (.giveUp c)), world)
    | some ⟨_, .done _⟩ | none => (s, world)
    | some _ => drive setup host c fuel (act setup s (.advance c), world)

def stepLimit : Nat := 10

/-- The module of a version, which is loaded and downloaded if it has to be; none if another
caller has the turn. -/
def get (setup : Setup) (host : Host μ σ) (v : Version) (s : State μ) (world : σ) :
    Option (Except Failure μ) × State μ × σ :=
  let c := s.callers.length
  let (s, world) := drive setup host c stepLimit (act setup s (.get v), world)
  (s.answer? c, s, world)

def insert (setup : Setup) (v : Version) (m : μ) (s : State μ) : State μ :=
  let c := s.callers.length
  [.insert v m, .advance c, .advance c, .advance c].foldl (act setup) s

def Mark.note? : Mark μ → Option Note
  | .event e => some (.event e)
  | .loaded _ _ | .uninstalled _ => none

/-- Builds get their compilers from a registry. A compiler calls back into the state that it is
kept in. -/
def resolver (setup : Setup) (host : Host μ σ) (hold : μ → Compiler (State μ × σ)) :
    Build.Resolver (State μ × σ) := fun v => ⟨fun (s, world) =>
  let (answer, t, world) := get setup host v s world
  ⟨(answer.getD (.error .unsettled)).map hold,
    (t.history.drop s.history.length).filterMap Mark.note?, (t, world)⟩⟩

def programHost (hold : Program → μ) : Host μ σ where
  load path _ world := (.ok (hold ⟨path, []⟩), world)
  work _ world := ([], world)

end ContractBuild.Registry
