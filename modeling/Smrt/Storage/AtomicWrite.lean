import Mathlib.Algebra.Group.Nat.Defs
import Smrt.Lib.Decimal
import Smrt.Lib.System

/-!
# Files that are written whole

A file of the storage is written beside itself first, under a name of its own (`tempName`), and
takes its place once it is on the disk (`atomic_write`). Files are written and read a piece at a
time, any number of them at once, and what was begun may fail or be removed at any time.

When the machine goes down, the names are again what they were at some time before, and in a file
that was not on the disk there is anything. The process that comes up may have the number of the one
that went down, and counts its files from zero again.

* `Roles`: what each file is there for, in every state reached;
* `whole`: whoever reads a file gets what was written to it in one piece.
-/

namespace Smrt

namespace AtomicWrite

/-- The name that a file has while it is written. -/
def tempName (path : String) (pid seq : ℕ) : String :=
  path ++ ".tmp." ++ toString pid ++ "." ++ toString seq

/-- Whether a name is one of those. -/
def isTemp (path : String) : Bool :=
  match path.toList.reverse.splitOn '.' with
  | seq :: pid :: tmp :: _ :: _ =>
    (decimal seq).isSome ∧ (decimal pid).isSome ∧ tmp = ['p', 'm', 't']
  | _ => false

/-- What is in a file, and whether it is on the disk. -/
structure Node where
  data : List UInt8
  synced : Bool

inductive Stage
  | opening
  | writing (node : ℕ) (rest : List UInt8)
  | written (node : ℕ)
  /-- Something failed; the file beside is removed. -/
  | cleaning

/-- A file that is being written. -/
structure Save where
  path : String
  bytes : List UInt8
  seq : ℕ
  stage : Stage

structure Reader where
  path : String
  node : ℕ
  got : List UInt8

abbrev Names := String → Option ℕ

structure State where
  nodes : ℕ → Node
  /-- How many files there were. -/
  used : ℕ
  names : Names
  /-- What the names were before, the last ones first. -/
  before : List Names
  pid : ℕ
  seq : ℕ
  saves : ℕ → Option Save
  readers : ℕ → Option Reader
  /-- What was to be written, and where. -/
  asked : List (String × List UInt8)
  /-- What was read, and where. -/
  answers : List (String × List UInt8)

/-- What a write does next. -/
inductive Move
  | create
  | write (count : ℕ)
  | sync
  | rename
  | fail
  | clean

inductive Act
  | save (k : ℕ) (path : String) (bytes : List UInt8)
  | move (k : ℕ) (m : Move)
  | remove (path : String)
  | open (r : ℕ) (path : String)
  | read (r count : ℕ)
  | crash (older : ℕ) (lost : ℕ → List UInt8) (pid : ℕ)

namespace State

variable (s : State) (k : ℕ) (save : Save)

def temp : String := tempName save.path s.pid save.seq

def begin (path : String) (bytes : List UInt8) : State :=
  { s with
    saves := Function.update s.saves k (some ⟨path, bytes, s.seq, .opening⟩)
    seq := s.seq + 1
    asked := (path, bytes) :: s.asked }

def stage (stage : Stage) : State :=
  { s with saves := Function.update s.saves k (some { save with stage }) }

def finish : State := { s with saves := Function.update s.saves k none }

/-- The names change. -/
def renamed (names : Names) : State := { s with names, before := s.names :: s.before }

def fill (node : ℕ) (content : Node) : State :=
  { s with nodes := Function.update s.nodes node content }

/-- A file is written from its beginning on. -/
def take (node : ℕ) : State :=
  (s.fill node ⟨[], false⟩).stage k save (.writing node save.bytes)

/-- A name with a file that was not there before. -/
def make (path : String) : State :=
  ({ s with used := s.used + 1 } : State).renamed (Function.update s.names path (some s.used))

/-- A file is opened to be written, and emptied if it is there. -/
def create : State :=
  match s.names (s.temp save) with
  | some node => s.take k save node
  | none => (s.make (s.temp save)).take k save s.used

def write (node : ℕ) (rest : List UInt8) (count : ℕ) : State :=
  (s.fill node ⟨(s.nodes node).data ++ rest.take count, false⟩).stage k save
    (.writing node (rest.drop count))

def sync (node : ℕ) : State :=
  (s.fill node { s.nodes node with synced := true }).stage k save (.written node)

/-- The file beside takes its place, unless it is gone. -/
def rename : State :=
  match s.names (s.temp save) with
  | some node => (s.renamed (Function.update (Function.update s.names (s.temp save) none) save.path
      (some node))).finish k
  | none => s.stage k save .cleaning

def remove (path : String) : State := s.renamed (Function.update s.names path none)

def move : Stage → Move → Option State
  | .opening, .create => some (s.create k save)
  | .writing node rest, .write count => some (s.write k save node rest count)
  | .writing node rest, .sync => if rest = [] then some (s.sync k save node) else none
  | .written _, .rename => some (s.rename k save)
  | .cleaning, .clean => some ((s.remove (s.temp save)).finish k)
  | .cleaning, .fail => none
  | _, .fail => some (s.stage k save .cleaning)
  | _, _ => none

def read (r : ℕ) (reader : Reader) (count : ℕ) : State :=
  let rest := (s.nodes reader.node).data.drop reader.got.length
  if rest = [] then { s with
    readers := Function.update s.readers r none
    answers := (reader.path, reader.got) :: s.answers }
  else { s with
    readers := Function.update s.readers r
      (some { reader with got := reader.got ++ rest.take count }) }

/-- What is left of the files when the machine goes down. -/
def left (lost : ℕ → List UInt8) (node : ℕ) : Node :=
  if (s.nodes node).synced then s.nodes node else ⟨lost node, true⟩

end State

/-- The state after a step. -/
def step (s : State) : Act → Option State
  | .save k path bytes => if (s.saves k).isSome then none else some (s.begin k path bytes)
  | .move k m => (s.saves k).bind fun save => s.move k save save.stage m
  | .remove path => some (s.remove path)
  | .open r path => if (s.readers r).isSome then none else
    (s.names path).map fun node =>
      { s with readers := Function.update s.readers r (some ⟨path, node, []⟩) }
  | .read r count => (s.readers r).map fun reader => s.read r reader count
  | .crash older lost pid => match (s.names :: s.before).drop older with
    | [] => none
    | names :: before => some { s with
      nodes := s.left lost, names, before, pid
      seq := 0
      saves := fun _ => none
      readers := fun _ => none }

/-- The storage, before there is a file. -/
def system : System State Act where
  init := fun s => (∀ path, s.names path = none) ∧ s.before = [] ∧ (∀ k, s.saves k = none) ∧
    (∀ r, s.readers r = none) ∧ s.answers = []
  step := step

/-- Nobody writes or reads under a name that a file has while it is written. -/
def plain (_ : State) : Act → Prop
  | .save _ path _ => isTemp path = false
  | .open _ path => isTemp path = false
  | _ => True

instance (s : State) : DecidablePred (plain s)
  | .save _ path _ | .open _ path => inferInstanceAs (Decidable (isTemp path = false))
  | .move _ _ | .remove _ | .read _ _ | .crash _ _ _ => isTrue trivial

/-! ## The names of files that are written -/

theorem decimal_reverse_isSome (n : ℕ) : (decimal (Nat.toDigits 10 n).reverse).isSome := by
  have hne : (Nat.toDigits 10 n).reverse ≠ [] :=
    fun h => Nat.toDigits_ne_nil (List.reverse_eq_nil_iff.1 h)
  have hdigits : (Nat.toDigits 10 n).reverse.all Char.isDigit = true :=
    List.all_eq_true.2 fun c hc => isDigit_of_mem_toDigits (List.mem_reverse.1 hc)
  rw [decimal, if_pos ⟨hne, hdigits⟩]
  rfl

theorem dot_notMem_toDigits (n : ℕ) : '.' ∉ (Nat.toDigits 10 n).reverse := by
  intro h
  exact absurd (isDigit_of_mem_toDigits (List.mem_reverse.1 h)) (by decide)

/-- The parts of such a name, from its end on. -/
theorem splitOn_tempName (path : String) (pid seq : ℕ) :
    (tempName path pid seq).toList.reverse.splitOn '.' =
      (Nat.toDigits 10 seq).reverse :: (Nat.toDigits 10 pid).reverse :: ['p', 'm', 't'] ::
        path.toList.reverse.splitOn '.' := by
  have hlist : (tempName path pid seq).toList.reverse =
      (Nat.toDigits 10 seq).reverse ++ '.' :: ((Nat.toDigits 10 pid).reverse ++
        '.' :: (['p', 'm', 't'] ++ '.' :: path.toList.reverse)) := by
    have htmp : ".tmp.".toList = ['.', 't', 'm', 'p', '.'] := by decide
    have hdot : ".".toList = ['.'] := by decide
    rw [tempName, String.toList_append, String.toList_append, String.toList_append,
      String.toList_append, toList_toString, toList_toString, htmp, hdot]
    simp
  have hone : ∀ l : List Char, '.' ∉ l → l.splitOn '.' = [l] := by
    intro l hl
    rw [List.splitOn_eq_singleton hl]
  rw [hlist, List.splitOn_append_cons_self, List.splitOn_append_cons_self,
    List.splitOn_append_cons_self, hone _ (dot_notMem_toDigits seq),
    hone _ (dot_notMem_toDigits pid), hone ['p', 'm', 't'] (by decide)]
  rfl

theorem isTemp_tempName (path : String) (pid seq : ℕ) : isTemp (tempName path pid seq) = true := by
  obtain ⟨part, parts, hparts⟩ :=
    List.exists_cons_of_ne_nil (List.splitOn_ne_nil '.' path.toList.reverse)
  rw [isTemp, splitOn_tempName, hparts]
  exact decide_eq_true ⟨decimal_reverse_isSome seq, decimal_reverse_isSome pid, rfl⟩

/-- The files that a process writes at once have names of their own. -/
theorem seq_of_tempName {p q : String} {pid m n : ℕ} (h : tempName p pid m = tempName q pid n) :
    m = n := by
  have hparts := splitOn_tempName p pid m
  rw [h, splitOn_tempName] at hparts
  have hdigits := List.reverse_injective (List.cons.inj hparts).1
  have hdecimal := congrArg decimal hdigits
  rw [decimal_toDigits, decimal_toDigits] at hdecimal
  exact (Option.some.inj hdecimal).symm

/-! ## What each file is there for -/

inductive Role
  /-- Nobody writes it, and it is at no place of its own. -/
  | loose
  | busy (k : ℕ)
  /-- It is at its place, or it was there. -/
  | placed (path : String) (bytes : List UInt8)
  deriving DecidableEq

/-- A file that was at its place is not beside any more. -/
def Before (new old : Names) : Prop :=
  ∀ path temp n, isTemp path = false → isTemp temp = true → old path = some n → new temp ≠ some n

/-- The names at some times, the last ones first. -/
structure Past (role : ℕ → Role) (used : ℕ) (all : List Names) : Prop where
  made : ∀ names ∈ all, ∀ path n, names path = some n → n < used
  one : ∀ names ∈ all, ∀ p q n, names p = some n → names q = some n → p = q
  ordered : all.Pairwise Before
  place : ∀ names ∈ all, ∀ path n, isTemp path = false → names path = some n →
    ∃ bytes, role n = .placed path bytes

def Stage.node : Stage → Option ℕ
  | .writing node _ | .written node => some node
  | _ => none

/-- What is in the file of a write. -/
def Stage.Ready (nodes : ℕ → Node) (role : ℕ → Role) (k : ℕ) (bytes : List UInt8) : Stage → Prop
  | .writing node rest => role node = .busy k ∧ (nodes node).data ++ rest = bytes
  | .written node => role node = .busy k ∧ nodes node = ⟨bytes, true⟩
  | _ => True

/-- What holds of a file that is being written. -/
structure Save.Sound (s : State) (role : ℕ → Role) (k : ℕ) (save : Save) : Prop where
  asked : (save.path, save.bytes) ∈ s.asked
  plain : isTemp save.path = false
  drawn : save.seq < s.seq
  ready : save.stage.Ready s.nodes role k save.bytes
  mine : ∀ n m, save.stage.node = some n → s.names (s.temp save) = some m → m = n

/-- What each file is there for. -/
structure Roles (s : State) (role : ℕ → Role) : Prop where
  past : Past role s.used (s.names :: s.before)
  temp : ∀ t n, isTemp t = true → s.names t = some n → ∀ path bytes, role n ≠ .placed path bytes
  placed : ∀ n path bytes, role n = .placed path bytes →
    s.nodes n = ⟨bytes, true⟩ ∧ (path, bytes) ∈ s.asked
  busy : ∀ n k, role n = .busy k → ∃ save, s.saves k = some save ∧ save.stage.node = some n ∧
    ∀ path, s.names path = some n → path = s.temp save
  fresh : ∀ n, s.used ≤ n → role n = .loose
  save : ∀ k save, s.saves k = some save → save.Sound s role k
  seqs : ∀ j k a b, s.saves j = some a → s.saves k = some b → a.seq = b.seq → j = k
  reader : ∀ r reader, s.readers r = some reader →
    ∃ bytes, role reader.node = .placed reader.path bytes ∧ reader.got <+: bytes
  answer : ∀ a ∈ s.answers, a ∈ s.asked

section Steps

variable {s : State} {role : ℕ → Role} {k : ℕ} {save : Save}

theorem Past.push {used : ℕ} {all : List Names} {names : Names} (h : Past role used all)
    (hmade : ∀ path n, names path = some n → n < used)
    (hone : ∀ p q n, names p = some n → names q = some n → p = q)
    (hordered : ∀ old ∈ all, Before names old)
    (hplace : ∀ path n, isTemp path = false → names path = some n →
      ∃ bytes, role n = .placed path bytes) : Past role used (names :: all) where
  made := List.forall_mem_cons.2 ⟨hmade, h.made⟩
  one := List.forall_mem_cons.2 ⟨hone, h.one⟩
  ordered := List.pairwise_cons.2 ⟨hordered, h.ordered⟩
  place := List.forall_mem_cons.2 ⟨hplace, h.place⟩

/-- What is at its place is not beside. -/
theorem Past.before_self {used : ℕ} {names : Names} {all : List Names}
    (h : Past role used (names :: all)) : ∀ old ∈ names :: all, Before names old := by
  intro old hold
  rcases List.mem_cons.1 hold with rfl | hold
  · intro path t n hpath ht hp hn
    have he : path = t := h.one old List.mem_cons_self path t n hp hn
    rw [he, ht] at hpath
    cases hpath
  · exact (List.pairwise_cons.1 h.ordered).1 old hold

/-- Some names are gone. -/
theorem Past.shrink {used : ℕ} {names names' : Names} {all : List Names}
    (h : Past role used (names :: all))
    (hsub : ∀ path n, names' path = some n → names path = some n) :
    Past role used (names' :: names :: all) := by
  refine h.push (fun path n hp => ?_) (fun p q n hp hq => ?_) (fun old hold => ?_)
    fun path n hpath hp => ?_
  · exact h.made names List.mem_cons_self path n (hsub path n hp)
  · exact h.one names List.mem_cons_self p q n (hsub p n hp) (hsub q n hq)
  · exact fun path t n hpath ht hp hn => h.before_self old hold path t n hpath ht hp (hsub t n hn)
  · exact h.place names List.mem_cons_self path n hpath (hsub path n hp)

/-- What was at its place keeps its role. -/
theorem Past.recast {role' : ℕ → Role} {used : ℕ} {all : List Names} (h : Past role used all)
    (hrole : ∀ n path bytes, role n = .placed path bytes → role' n = .placed path bytes) :
    Past role' used all :=
  { h with place := fun names hn path n hpath hp =>
      (h.place names hn path n hpath hp).imp fun bytes hb => hrole n path bytes hb }

theorem update_none {names : Names} {p path : String} {n : ℕ}
    (h : Function.update names p none path = some n) : path ≠ p ∧ names path = some n := by
  by_cases hp : path = p
  · rw [hp, Function.update_self] at h
    cases h
  · rw [Function.update_of_ne hp] at h
    exact ⟨hp, h⟩

/-- Some names are removed. -/
theorem Roles.shrink (h : Roles s role) {names : Names}
    (hsub : ∀ path n, names path = some n → s.names path = some n) : Roles (s.renamed names) role :=
  { h with
    past := h.past.shrink hsub
    temp := fun t n ht hn => h.temp t n ht (hsub t n hn)
    busy := fun n k hn => (h.busy n k hn).imp fun _ hs =>
      ⟨hs.1, hs.2.1, fun path hp => hs.2.2 path (hsub path n hp)⟩
    save := fun k save hs => { h.save k save hs with
      mine := fun n m hn hm => (h.save k save hs).mine n m hn (hsub _ m hm) } }

theorem Roles.remove (h : Roles s role) (path : String) : Roles (s.remove path) role :=
  h.shrink fun _ _ hn => (update_none hn).2

/-! ## The steps of a write -/

theorem Stage.Ready.busy {nodes : ℕ → Node} {bytes : List UInt8} {stage : Stage} {n : ℕ}
    (h : stage.Ready nodes role k bytes) (hn : stage.node = some n) : role n = .busy k := by
  cases stage with
  | writing | written =>
    cases hn
    exact h.1
  | opening | cleaning => cases hn

/-- What is in the file of a write is told from its file. -/
theorem Stage.Ready.imp {nodes nodes' : ℕ → Node} {role' : ℕ → Role} {bytes : List UInt8}
    {stage : Stage} (h : stage.Ready nodes role k bytes)
    (hkeep : ∀ n, stage.node = some n → role' n = .busy k ∧ nodes' n = nodes n) :
    stage.Ready nodes' role' k bytes := by
  cases stage with
  | writing n =>
    obtain ⟨hrole, hnode⟩ := hkeep n rfl
    refine ⟨hrole, ?_⟩
    rw [hnode]
    exact h.2
  | written n =>
    obtain ⟨hrole, hnode⟩ := hkeep n rfl
    exact ⟨hrole, hnode.trans h.2⟩
  | opening | cleaning => exact trivial

/-- Neither the names change nor what has its place, and no write has a new number. -/
theorem Roles.recast (h : Roles s role) {nodes : ℕ → Node} {saves : ℕ → Option Save}
    {role' : ℕ → Role} (hplaced : ∀ n p b, role' n = .placed p b ↔ role n = .placed p b)
    (hnodes : ∀ n p b, role n = .placed p b → nodes n = s.nodes n)
    (hold : ∀ i a, saves i = some a → ∃ a', s.saves i = some a' ∧ a'.seq = a.seq)
    (hbusy : ∀ n j, role' n = .busy j → ∃ save, saves j = some save ∧ save.stage.node = some n ∧
      ∀ path, s.names path = some n → path = s.temp save)
    (hfresh : ∀ n, s.used ≤ n → role' n = .loose)
    (hsave : ∀ j save, saves j = some save → save.Sound { s with nodes, saves } role' j) :
    Roles { s with nodes, saves } role' where
  past := h.past.recast fun n path bytes hn => (hplaced n path bytes).2 hn
  temp t n ht hn path bytes hp := h.temp t n ht hn path bytes ((hplaced n path bytes).1 hp)
  placed n path bytes hn := by
    have hn := (hplaced n path bytes).1 hn
    obtain ⟨hnode, hasked⟩ := h.placed n path bytes hn
    exact ⟨(hnodes n path bytes hn).trans hnode, hasked⟩
  busy := hbusy
  fresh := hfresh
  save := hsave
  seqs i j a b ha hb hab := by
    obtain ⟨a', ha', hseqa⟩ := hold i a ha
    obtain ⟨b', hb', hseqb⟩ := hold j b hb
    exact h.seqs i j a' b' ha' hb' ((hseqa.trans hab).trans hseqb.symm)
  reader r reader hr := by
    obtain ⟨bytes, hrole, hgot⟩ := h.reader r reader hr
    exact ⟨bytes, (hplaced _ _ _).2 hrole, hgot⟩
  answer := h.answer

theorem saves_stage {stage : Stage} {j : ℕ} {other : Save}
    (h : (s.stage k save stage).saves j = some other) :
    j = k ∧ other = { save with stage } ∨ j ≠ k ∧ s.saves j = some other := by
  have h : Function.update s.saves k (some { save with stage }) j = some other := h
  by_cases hj : j = k
  · rw [hj, Function.update_self] at h
    exact .inl ⟨hj, (Option.some.inj h).symm⟩
  · rw [Function.update_of_ne hj] at h
    exact .inr ⟨hj, h⟩

/-- A write has its file, which was nobody's or its own, and there is in it what should be. -/
theorem Roles.fill (h : Roles s role) (hs : s.saves k = some save) (node : ℕ) {content : Node}
    {stage : Stage} (hfree : role node = .loose ∨ role node = .busy k) (hused : node < s.used)
    (hlinks : ∀ path, s.names path = some node → path = s.temp save)
    (hmine : ∀ m, s.names (s.temp save) = some m → m = node)
    (hold : ∀ n, save.stage.node = some n → n = node) (hnode : stage.node = some node)
    (hready : ∀ nodes role', nodes node = content → role' node = .busy k →
      stage.Ready nodes role' k save.bytes) :
    Roles ((s.fill node content).stage k save stage) (Function.update role node (.busy k)) := by
  have hunplaced : ∀ path bytes, role node ≠ .placed path bytes := by
    intro path bytes hp
    rcases hfree with hfree | hfree
    all_goals
      rw [hfree] at hp
      cases hp
  have hrole : ∀ n, n ≠ node → Function.update role node (.busy k) n = role n :=
    fun n hn => Function.update_of_ne hn _ _
  have hnodes : ∀ n, n ≠ node → ((s.fill node content).stage k save stage).nodes n = s.nodes n :=
    fun n hn => Function.update_of_ne hn _ _
  -- no other write has the file
  have hother : ∀ j other n, j ≠ k → s.saves j = some other → other.stage.node = some n →
      n ≠ node := by
    rintro j other n hj hso hn rfl
    have hbusy := (h.save j other hso).ready.busy hn
    rcases hfree with hfree | hfree
    · rw [hfree] at hbusy
      cases hbusy
    · rw [hfree] at hbusy
      exact hj (Role.busy.inj hbusy).symm
  refine h.recast (fun n p b => ?_) (fun n p b hn => ?_) (fun i a ha => ?_) (fun n j hn => ?_)
    (fun n hn => ?_) fun j other hso => ?_
  · by_cases he : n = node
    · rw [he, Function.update_self]
      exact ⟨fun hp => (by cases hp), fun hp => absurd hp (hunplaced p b)⟩
    · rw [hrole n he]
  · exact hnodes n fun he => hunplaced p b (he ▸ hn)
  · rcases saves_stage ha with ⟨rfl, rfl⟩ | ⟨-, ha⟩
    · exact ⟨save, hs, rfl⟩
    · exact ⟨a, ha, rfl⟩
  · by_cases he : n = node
    · rw [he, Function.update_self] at hn
      obtain rfl := Role.busy.inj hn
      exact ⟨{ save with stage }, Function.update_self .., he ▸ hnode, fun path hp =>
        hlinks path (he ▸ hp)⟩
    · rw [hrole n he] at hn
      obtain ⟨other, hso, hnode', hlinks'⟩ := h.busy n j hn
      have hj : j ≠ k := by
        rintro rfl
        obtain rfl := Option.some.inj (hso.symm.trans hs)
        exact he (hold n hnode')
      exact ⟨other, (Function.update_of_ne hj _ _).trans hso, hnode', hlinks'⟩
  · rw [hrole n (Nat.ne_of_gt (Nat.lt_of_lt_of_le hused hn))]
    exact h.fresh n hn
  · rcases saves_stage hso with ⟨rfl, rfl⟩ | ⟨hj, hso⟩
    · have hsound := h.save j save hs
      refine ⟨hsound.asked, hsound.plain, hsound.drawn, ?_, fun n m hn hm => ?_⟩
      · exact hready _ _ (Function.update_self ..) (Function.update_self ..)
      · have he : n = node := Option.some.inj (hn.symm.trans hnode)
        rw [he]
        exact hmine m hm
    · have hsound := h.save j other hso
      refine { hsound with ready := hsound.ready.imp fun n hn => ?_ }
      have hne := hother j other n hj hso hn
      exact ⟨(hrole n hne).trans (hsound.ready.busy hn), hnodes n hne⟩

/-- The role of a file that its write has given up. -/
def released (role : ℕ → Role) (k n : ℕ) : Role := if role n = .busy k then .loose else role n

theorem released_eq {n : ℕ} {r : Role} (hr : r ≠ .loose) :
    released role k n = r ↔ role n = r ∧ r ≠ .busy k := by
  rw [released]
  split_ifs with hbusy
  · rw [hbusy]
    exact ⟨fun h => absurd h.symm hr, fun h => absurd h.1.symm h.2⟩
  · exact ⟨fun h => ⟨h, fun hk => hbusy (h.trans hk)⟩, And.left⟩

/-- A write has no file any more. -/
theorem Roles.release (h : Roles s role) (hs : s.saves k = some save) {o : Option Save}
    (ho : ∀ other, o = some other → other.path = save.path ∧ other.bytes = save.bytes ∧
      other.seq = save.seq ∧ other.stage = .cleaning) :
    Roles { s with saves := Function.update s.saves k o } (released role k) := by
  have hsaves : ∀ j other, Function.update s.saves k o j = some other →
      j = k ∧ o = some other ∨ j ≠ k ∧ s.saves j = some other := by
    intro j other hj
    by_cases he : j = k
    · rw [he, Function.update_self] at hj
      exact .inl ⟨he, hj⟩
    · rw [Function.update_of_ne he] at hj
      exact .inr ⟨he, hj⟩
  refine h.recast (fun n p b => ?_) (fun _ _ _ _ => rfl) (fun i a ha => ?_) (fun n j hn => ?_)
    (fun n hn => ?_) fun j other hj => ?_
  · rw [released_eq (by rintro ⟨⟩)]
    exact and_iff_left (by rintro ⟨⟩)
  · rcases hsaves i a ha with ⟨rfl, hother⟩ | ⟨-, ha⟩
    · exact ⟨save, hs, (ho a hother).2.2.1.symm⟩
    · exact ⟨a, ha, rfl⟩
  · obtain ⟨hn, hj⟩ := (released_eq (by rintro ⟨⟩)).1 hn
    obtain ⟨other, hso, hrest⟩ := h.busy n j hn
    have hne : j ≠ k := fun he => hj (congrArg Role.busy he)
    exact ⟨other, (Function.update_of_ne hne _ _).trans hso, hrest⟩
  · rw [released, h.fresh n hn]
    rfl
  · rcases hsaves j other hj with ⟨rfl, hother⟩ | ⟨hne, hso⟩
    · obtain ⟨hpath, hbytes, hseq, hstage⟩ := ho other hother
      have hsound := h.save j save hs
      refine ⟨?_, ?_, ?_, ?_, ?_⟩
      · rw [hpath, hbytes]
        exact hsound.asked
      · rw [hpath]
        exact hsound.plain
      · rw [hseq]
        exact hsound.drawn
      · rw [hstage]
        exact trivial
      · intro n m hn
        rw [hstage] at hn
        cases hn
    · have hsound := h.save j other hso
      refine { hsound with ready := hsound.ready.imp fun n hn => ⟨?_, rfl⟩ }
      exact (released_eq (by rintro ⟨⟩)).2
        ⟨hsound.ready.busy hn, fun he => hne (Role.busy.inj he)⟩

/-- A write that goes on with its file. -/
theorem Roles.refill (h : Roles s role) (hs : s.saves k = some save) {node : ℕ} {content : Node}
    {stage : Stage} (hrole : role node = .busy k) (hold : save.stage.node = some node)
    (hnode : stage.node = some node)
    (hready : ∀ nodes role', nodes node = content → role' node = .busy k →
      stage.Ready nodes role' k save.bytes) :
    Roles ((s.fill node content).stage k save stage) role := by
  obtain ⟨other, hso, -, hlinks⟩ := h.busy node k hrole
  obtain rfl := Option.some.inj (hso.symm.trans hs)
  have hused : node < s.used := by
    by_contra hge
    have hloose := h.fresh node (Nat.le_of_not_lt hge)
    rw [hrole] at hloose
    cases hloose
  have hfill := h.fill hs node (.inr hrole) hused hlinks
    (fun m hm => (h.save k other hs).mine node m hold hm)
    (fun n hn => Option.some.inj (hn.symm.trans hold)) hnode hready
  rwa [← hrole, Function.update_eq_self] at hfill

theorem Roles.begin (h : Roles s role) (hs : s.saves k = none) {path : String} {bytes : List UInt8}
    (hpath : isTemp path = false) : Roles (s.begin k path bytes) role := by
  have hsaves : ∀ j other, (s.begin k path bytes).saves j = some other →
      j = k ∧ other = ⟨path, bytes, s.seq, .opening⟩ ∨ s.saves j = some other := by
    intro j other hj
    have hj : Function.update s.saves k (some ⟨path, bytes, s.seq, .opening⟩) j = some other := hj
    by_cases he : j = k
    · rw [he, Function.update_self] at hj
      exact .inl ⟨he, (Option.some.inj hj).symm⟩
    · rw [Function.update_of_ne he] at hj
      exact .inr hj
  refine { h with
    placed := fun n p b hn => (h.placed n p b hn).imp_right (List.mem_cons_of_mem _)
    answer := fun a ha => List.mem_cons_of_mem _ (h.answer a ha)
    busy := fun n j hn => ?_, save := fun j other hj => ?_, seqs := fun i j a b ha hb hab => ?_ }
  · obtain ⟨other, hso, hrest⟩ := h.busy n j hn
    have hne : j ≠ k := by
      rintro rfl
      rw [hs] at hso
      cases hso
    exact ⟨other, (Function.update_of_ne hne _ _).trans hso, hrest⟩
  · rcases hsaves j other hj with ⟨-, rfl⟩ | hso
    · exact ⟨List.mem_cons_self, hpath, Nat.lt_succ_self _, trivial, fun _ _ hn => by cases hn⟩
    · have hsound := h.save j other hso
      exact { hsound with
        asked := List.mem_cons_of_mem _ hsound.asked
        drawn := Nat.lt_succ_of_lt hsound.drawn }
  · rcases hsaves i a ha with ⟨hi, hseq⟩ | hsi
    · rcases hsaves j b hb with ⟨hj, -⟩ | hsj
      · exact hi.trans hj.symm
      · rw [hseq] at hab
        exact absurd hab.symm (Nat.ne_of_lt (h.save j b hsj).drawn)
    · rcases hsaves j b hb with ⟨-, hseq⟩ | hsj
      · rw [hseq] at hab
        exact absurd hab (Nat.ne_of_lt (h.save i a hsi).drawn)
      · exact h.seqs i j a b hsi hsj hab

theorem update_some {names : Names} {p path : String} {m n : ℕ}
    (h : Function.update names p (some m) path = some n) :
    path = p ∧ n = m ∨ path ≠ p ∧ names path = some n := by
  by_cases hp : path = p
  · rw [hp, Function.update_self] at h
    exact .inl ⟨hp, (Option.some.inj h).symm⟩
  · rw [Function.update_of_ne hp] at h
    exact .inr ⟨hp, h⟩

/-- A file is made beside, and nobody writes another one under that name. -/
theorem Roles.make (h : Roles s role) {path : String} (hpath : isTemp path = true)
    (hother : ∀ j other n, s.saves j = some other → other.stage.node = some n →
      s.temp other ≠ path) : Roles (s.make path) role := by
  have hpast : Past role (s.used + 1) (s.names :: s.before) := { h.past with
    made := fun names hn p n hp => Nat.lt_succ_of_lt (h.past.made names hn p n hp) }
  have hused : ∀ names ∈ s.names :: s.before, ∀ p, names p ≠ some s.used := fun names hn p hp =>
    absurd (h.past.made names hn p _ hp) (Nat.lt_irrefl _)
  have hloose := h.fresh s.used (Nat.le_refl _)
  have hhead := List.mem_cons_self (a := s.names) (l := s.before)
  have hpush : Past role (s.used + 1)
      (Function.update s.names path (some s.used) :: s.names :: s.before) := by
    refine hpast.push (fun p n hp => ?_) (fun p q n hp hq => ?_) (fun old hold => ?_)
      fun p n hplain hp => ?_
    · rcases update_some hp with ⟨-, rfl⟩ | ⟨-, hp⟩
      · exact Nat.lt_succ_self _
      · exact hpast.made _ hhead p n hp
    · rcases update_some hp with ⟨hpp, hn⟩ | ⟨-, hsp⟩
      · rcases update_some hq with ⟨hqp, -⟩ | ⟨-, hsq⟩
        · exact hpp.trans hqp.symm
        · exact absurd (hn ▸ hsq) (hused _ hhead q)
      · rcases update_some hq with ⟨-, hn⟩ | ⟨-, hsq⟩
        · exact absurd (hn ▸ hsp) (hused _ hhead p)
        · exact h.past.one _ hhead p q n hsp hsq
    · intro p t n hplain ht hp hn
      rcases update_some hn with ⟨-, rfl⟩ | ⟨-, hn⟩
      · exact hused old hold p hp
      · exact h.past.before_self old hold p t n hplain ht hp hn
    · rcases update_some hp with ⟨rfl, -⟩ | ⟨-, hp⟩
      · rw [hpath] at hplain
        cases hplain
      · exact h.past.place _ hhead p n hplain hp
  refine { h with
    past := hpush, temp := fun t n ht hn p b hr => ?_, busy := fun n k hn => ?_
    fresh := fun n hn => h.fresh n (Nat.le_of_succ_le hn), save := fun j other hso => ?_ }
  · rcases update_some hn with ⟨-, rfl⟩ | ⟨-, hn⟩
    · rw [hloose] at hr
      cases hr
    · exact h.temp t n ht hn p b hr
  · obtain ⟨other, hso, hnode, hlinks⟩ := h.busy n k hn
    refine ⟨other, hso, hnode, fun p hp => ?_⟩
    rcases update_some hp with ⟨-, rfl⟩ | ⟨-, hp⟩
    · rw [hloose] at hn
      cases hn
    · exact hlinks p hp
  · refine { h.save j other hso with mine := fun n m hn hm => ?_ }
    rcases update_some hm with ⟨he, -⟩ | ⟨-, hm⟩
    · exact absurd he (hother j other n hso hn)
    · exact (h.save j other hso).mine n m hn hm

/-- A write opens its file. -/
theorem Roles.create (h : Roles s role) (hs : s.saves k = some save)
    (hstage : save.stage = .opening) : ∃ role', Roles (s.create k save) role' := by
  have htemp := isTemp_tempName save.path s.pid save.seq
  have hnone : save.stage.node = none := by rw [hstage]; rfl
  have hold : ∀ node n, save.stage.node = some n → n = node := by
    intro node n hn
    rw [hnone] at hn
    cases hn
  -- another write has another name
  have hother : ∀ j other n, s.saves j = some other → other.stage.node = some n →
      s.temp other ≠ s.temp save := by
    intro j other n hso hn he
    obtain rfl := h.seqs j k other save hso hs (seq_of_tempName he)
    obtain rfl := Option.some.inj (hso.symm.trans hs)
    rw [hnone] at hn
    cases hn
  have hready : ∀ node nodes role', nodes node = (⟨[], false⟩ : Node) → role' node = .busy k →
      (Stage.writing node save.bytes).Ready nodes role' k save.bytes := by
    intro node nodes role' hn hr
    refine ⟨hr, ?_⟩
    rw [hn]
    rfl
  rw [State.create]
  rcases hname : s.names (s.temp save) with _ | node
  · have hmake := h.make htemp hother
    refine ⟨_, hmake.fill hs s.used (.inl (h.fresh _ (Nat.le_refl _))) (Nat.lt_succ_self _)
      (fun path hp => ?_) (fun m hm => ?_) (hold _) rfl (hready _)⟩
    · rcases update_some hp with ⟨he, -⟩ | ⟨-, hp⟩
      · exact he
      · exact absurd (h.past.made _ List.mem_cons_self path _ hp) (Nat.lt_irrefl _)
    · rcases update_some hm with ⟨-, he⟩ | ⟨he, -⟩
      · exact he
      · exact absurd rfl he
  · -- what is left under the name is nobody's
    have hloose : role node = .loose := by
      rcases hr : role node with _ | j | ⟨path, bytes⟩
      · rfl
      · obtain ⟨other, hso, hn, hlinks⟩ := h.busy node j hr
        exact absurd (hlinks _ hname).symm (hother j other node hso hn)
      · exact absurd hr (h.temp _ node htemp hname path bytes)
    exact ⟨_, h.fill hs node (.inl hloose) (h.past.made _ List.mem_cons_self _ _ hname)
      (fun path hp => h.past.one _ List.mem_cons_self _ _ node hp hname)
      (fun m hm => Option.some.inj (hm.symm.trans hname)) (hold _) rfl (hready _)⟩

/-- A file that nobody writes, and in which there is what was to be written, takes its place. -/
theorem Roles.place (h : Roles s role) {path temp : String} {bytes : List UInt8} {node : ℕ}
    (hpath : isTemp path = false) (hname : s.names temp = some node)
    (hloose : role node = .loose) (hnode : s.nodes node = ⟨bytes, true⟩)
    (hasked : (path, bytes) ∈ s.asked) :
    Roles (s.renamed (Function.update (Function.update s.names temp none) path (some node)))
      (Function.update role node (.placed path bytes)) := by
  have hhead := List.mem_cons_self (a := s.names) (l := s.before)
  have hkeep : ∀ n r, r ≠ .loose → role n = r →
      n ≠ node ∧ Function.update role node (.placed path bytes) n = r := by
    intro n r hr hn
    have hne : n ≠ node := fun he => hr ((he ▸ hn).symm.trans hloose)
    exact ⟨hne, (Function.update_of_ne hne _ _).trans hn⟩
  have hlinks : ∀ p n,
      Function.update (Function.update s.names temp none) path (some node) p = some n →
        p = path ∧ n = node ∨ p ≠ path ∧ n ≠ node ∧ s.names p = some n := by
    intro p n hp
    rcases update_some hp with hp | ⟨hne, hp⟩
    · exact .inl hp
    · obtain ⟨hnt, hp⟩ := update_none hp
      exact .inr ⟨hne, fun he => hnt (h.past.one _ hhead p temp node (he ▸ hp) hname), hp⟩
  have hrole : ∀ n, n ≠ node → Function.update role node (.placed path bytes) n = role n :=
    fun n hn => Function.update_of_ne hn _ _
  constructor
  case past =>
    have hpast : Past (Function.update role node (.placed path bytes)) s.used
        (s.names :: s.before) :=
      h.past.recast fun n p b hn => (hkeep n _ (by rintro ⟨⟩) hn).2
    refine hpast.push (fun p n hp => ?_) (fun p q n hp hq => ?_) (fun old hold => ?_)
      fun p n hplain hp => ?_
    · rcases hlinks p n hp with ⟨-, rfl⟩ | ⟨-, -, hp⟩
      · exact h.past.made _ hhead temp n hname
      · exact h.past.made _ hhead p n hp
    · rcases hlinks p n hp with ⟨hpp, hn⟩ | ⟨-, hn, hsp⟩
      · rcases hlinks q n hq with ⟨hqp, -⟩ | ⟨-, hn', -⟩
        · exact hpp.trans hqp.symm
        · exact absurd hn hn'
      · rcases hlinks q n hq with ⟨-, hn'⟩ | ⟨-, -, hsq⟩
        · exact absurd hn' hn
        · exact h.past.one _ hhead p q n hsp hsq
    · intro p t n hplain ht hp hn
      rcases hlinks t n hn with ⟨rfl, -⟩ | ⟨-, -, hn⟩
      · rw [hpath] at ht
        cases ht
      · exact h.past.before_self old hold p t n hplain ht hp hn
    · rcases hlinks p n hp with ⟨rfl, rfl⟩ | ⟨-, hne, hp⟩
      · exact ⟨bytes, Function.update_self ..⟩
      · rw [hrole n hne]
        exact h.past.place _ hhead p n hplain hp
  case temp =>
    intro t n ht hn p b
    rcases hlinks t n hn with ⟨rfl, -⟩ | ⟨-, hne, hn⟩
    · rw [hpath] at ht
      cases ht
    · rw [hrole n hne]
      exact h.temp t n ht hn p b
  case placed =>
    intro n p b hn
    by_cases he : n = node
    · rw [he, Function.update_self] at hn
      obtain ⟨rfl, rfl⟩ := Role.placed.inj hn
      exact ⟨he ▸ hnode, hasked⟩
    · rw [hrole n he] at hn
      exact h.placed n p b hn
  case busy =>
    intro n j hn
    have hne : n ≠ node := by
      rintro rfl
      rw [Function.update_self] at hn
      cases hn
    rw [hrole n hne] at hn
    obtain ⟨other, hso, hstage, hrest⟩ := h.busy n j hn
    refine ⟨other, hso, hstage, fun p hp => ?_⟩
    rcases hlinks p n hp with ⟨-, he⟩ | ⟨-, -, hp⟩
    · exact absurd he hne
    · exact hrest p hp
  case fresh =>
    intro n hn
    have hused := h.past.made _ hhead temp node hname
    rw [hrole n (Nat.ne_of_gt (Nat.lt_of_lt_of_le hused hn))]
    exact h.fresh n hn
  case save =>
    intro j other hso
    have hsound := h.save j other hso
    refine { hsound with ready := hsound.ready.imp fun n hn => ?_, mine := fun n m hn hm => ?_ }
    · exact ⟨(hkeep n _ (by rintro ⟨⟩) (hsound.ready.busy hn)).2, rfl⟩
    · rcases hlinks _ m hm with ⟨he, -⟩ | ⟨-, -, hm⟩
      · have ht := isTemp_tempName other.path s.pid other.seq
        have he : tempName other.path s.pid other.seq = path := he
        rw [he, hpath] at ht
        cases ht
      · exact hsound.mine n m hn hm
  case seqs => exact h.seqs
  case reader =>
    intro r reader hr
    obtain ⟨b, hplaced, hgot⟩ := h.reader r reader hr
    exact ⟨b, (hkeep _ _ (by rintro ⟨⟩) hplaced).2, hgot⟩
  case answer => exact h.answer

/-- A write that has its file on the disk ends. -/
theorem Roles.rename (h : Roles s role) (hs : s.saves k = some save) {node : ℕ}
    (hstage : save.stage = .written node) : ∃ role', Roles (s.rename k save) role' := by
  have hsound := h.save k save hs
  have hready := hsound.ready
  rw [hstage] at hready
  rw [State.rename]
  rcases hname : s.names (s.temp save) with _ | m
  · refine ⟨_, h.release hs fun other ho => ?_⟩
    rw [← Option.some.inj ho]
    exact ⟨rfl, rfl, rfl, rfl⟩
  · obtain rfl : m = node := hsound.mine node m (by rw [hstage]; rfl) hname
    have hfree : Roles (s.finish k) (released role k) := h.release hs fun _ ho => by cases ho
    have hloose : released role k m = .loose := if_pos hready.1
    exact ⟨_, hfree.place hsound.plain hname hloose hready.2 hsound.asked⟩

theorem Roles.fail (h : Roles s role) (hs : s.saves k = some save) :
    Roles (s.stage k save .cleaning) (released role k) := by
  refine h.release hs fun other ho => ?_
  rw [← Option.some.inj ho]
  exact ⟨rfl, rfl, rfl, rfl⟩

theorem Roles.move (h : Roles s role) (hs : s.saves k = some save) {m : Move} {s' : State}
    (hm : s.move k save save.stage m = some s') : ∃ role', Roles s' role' := by
  have hready := (h.save k save hs).ready
  rcases hst : save.stage with _ | ⟨node, rest⟩ | node | _
  all_goals rw [hst] at hm hready
  case opening =>
    cases m with
    | create =>
      rw [← Option.some.inj hm]
      exact h.create hs hst
    | fail =>
      rw [← Option.some.inj hm]
      exact ⟨_, h.fail hs⟩
    | write | sync | rename | clean => cases hm
  case writing =>
    have hnode : save.stage.node = some node := by rw [hst]; rfl
    cases m with
    | write count =>
      rw [← Option.some.inj hm]
      refine ⟨role, h.refill hs hready.1 hnode rfl fun nodes role' hn hr => ⟨hr, ?_⟩⟩
      rw [hn, List.append_assoc, List.take_append_drop]
      exact hready.2
    | sync =>
      have hm : (if rest = [] then some (s.sync k save node) else none) = some s' := hm
      split_ifs at hm with hrest
      rw [← Option.some.inj hm]
      refine ⟨role, h.refill hs hready.1 hnode rfl fun nodes role' hn hr => ⟨hr, ?_⟩⟩
      have hdata := hready.2
      rw [hrest, List.append_nil] at hdata
      exact hn.trans (congrArg (fun data => (⟨data, true⟩ : Node)) hdata)
    | fail =>
      rw [← Option.some.inj hm]
      exact ⟨_, h.fail hs⟩
    | create | rename | clean => cases hm
  case written =>
    cases m with
    | rename =>
      rw [← Option.some.inj hm]
      exact h.rename hs hst
    | fail =>
      rw [← Option.some.inj hm]
      exact ⟨_, h.fail hs⟩
    | create | write | sync | clean => cases hm
  case cleaning =>
    cases m with
    | clean =>
      rw [← Option.some.inj hm]
      exact ⟨_, (h.remove _).release hs fun _ ho => by cases ho⟩
    | create | write | sync | rename | fail => cases hm

theorem Roles.opened (h : Roles s role) {r node : ℕ} {path : String} (hpath : isTemp path = false)
    (hname : s.names path = some node) :
    Roles { s with readers := Function.update s.readers r (some ⟨path, node, []⟩) } role := by
  refine { h with
    save := fun k save hs => { h.save k save hs with }, reader := fun i reader hr => ?_ }
  have hr : Function.update s.readers r (some ⟨path, node, []⟩) i = some reader := hr
  by_cases hi : i = r
  · rw [hi, Function.update_self] at hr
    rw [← Option.some.inj hr]
    obtain ⟨bytes, hplaced⟩ := h.past.place _ List.mem_cons_self path node hpath hname
    exact ⟨bytes, hplaced, List.nil_prefix⟩
  · rw [Function.update_of_ne hi] at hr
    exact h.reader i reader hr

theorem Roles.read (h : Roles s role) {r : ℕ} {reader : Reader} (hr : s.readers r = some reader)
    (count : ℕ) : Roles (s.read r reader count) role := by
  obtain ⟨bytes, hplaced, hgot⟩ := h.reader r reader hr
  obtain ⟨hnode, hasked⟩ := h.placed _ _ _ hplaced
  obtain ⟨rest, hrest⟩ := hgot
  have hdrop : (s.nodes reader.node).data.drop reader.got.length = rest := by
    rw [hnode, ← hrest, List.drop_left]
  have hother : ∀ o i other, Function.update s.readers r o i = some other →
      o = some other ∨ s.readers i = some other := by
    intro o i other hi
    by_cases he : i = r
    · rw [he, Function.update_self] at hi
      exact .inl hi
    · rw [Function.update_of_ne he] at hi
      exact .inr hi
  rw [State.read, hdrop]
  split_ifs with hend
  · rw [hend, List.append_nil] at hrest
    refine { h with
      save := fun k save hs => { h.save k save hs with }
      reader := fun i other hi => ?_
      answer := List.forall_mem_cons.2 ⟨?_, h.answer⟩ }
    · rcases hother _ i other hi with ho | hi
      · cases ho
      · exact h.reader i other hi
    · rw [hrest]
      exact hasked
  · refine { h with
      save := fun k save hs => { h.save k save hs with }, reader := fun i other hi => ?_ }
    rcases hother _ i other hi with ho | hi
    · rw [← Option.some.inj ho]
      refine ⟨bytes, hplaced, rest.drop count, ?_⟩
      rw [List.append_assoc, List.take_append_drop, hrest]
    · exact h.reader i other hi

open Classical in
/-- The machine goes down, and the names are what they were before. -/
theorem Roles.crash (h : Roles s role) {names : Names} {before : List Names} {older pid : ℕ}
    {lost : ℕ → List UInt8} (hdrop : (s.names :: s.before).drop older = names :: before) :
    ∃ role', Roles { s with
      nodes := s.left lost, names, before, pid, seq := 0, saves := fun _ => none,
      readers := fun _ => none } role' := by
  have hsub : ∀ old ∈ names :: before, old ∈ s.names :: s.before := fun old hold =>
    List.mem_of_mem_drop (hdrop ▸ hold)
  -- what is at its place then has its role, and nothing else has one
  let role' : ℕ → Role := fun n =>
    if ∃ old ∈ names :: before, ∃ path, isTemp path = false ∧ old path = some n then role n
    else .loose
  have hplaced : ∀ n path bytes, role' n = .placed path bytes → role n = .placed path bytes ∧
      ∃ old ∈ names :: before, ∃ path, isTemp path = false ∧ old path = some n := by
    intro n path bytes hn
    by_cases hat : ∃ old ∈ names :: before, ∃ path, isTemp path = false ∧ old path = some n
    · exact ⟨(if_pos hat).symm.trans hn, hat⟩
    · cases (if_neg hat).symm.trans hn
  have hpast : Past role' s.used (names :: before) := by
    constructor
    case made => exact fun old hold => h.past.made old (hsub old hold)
    case one => exact fun old hold => h.past.one old (hsub old hold)
    case ordered => exact hdrop ▸ h.past.ordered.sublist (List.drop_sublist _ _)
    case place =>
      intro old hold path n hpath hp
      obtain ⟨bytes, hb⟩ := h.past.place old (hsub old hold) path n hpath hp
      exact ⟨bytes, (if_pos ⟨old, hold, path, hpath, hp⟩).trans hb⟩
  refine ⟨role', { h with
    past := hpast, temp := fun t n ht hn path bytes hr => ?_
    placed := fun n path bytes hn => ?_, busy := fun n k hn => ?_, fresh := fun n hn => ?_
    save := fun _ _ hs => absurd hs.symm (Option.some_ne_none _)
    seqs := fun _ _ _ _ hs => absurd hs.symm (Option.some_ne_none _)
    reader := fun _ _ hr => absurd hr.symm (Option.some_ne_none _) }⟩
  · obtain ⟨-, old, hold, p, hp, hpn⟩ := hplaced n path bytes hr
    exact hpast.before_self old hold p t n hp ht hpn hn
  · obtain ⟨hnode, hasked⟩ := h.placed n path bytes (hplaced n path bytes hn).1
    refine ⟨?_, hasked⟩
    have hleft : s.left lost n = s.nodes n := if_pos (by rw [hnode])
    exact hleft.trans hnode
  · by_cases hat : ∃ old ∈ names :: before, ∃ path, isTemp path = false ∧ old path = some n
    · obtain ⟨old, hold, path, hpath, hp⟩ := hat
      obtain ⟨bytes, hb⟩ := hpast.place old hold path n hpath hp
      cases hb.symm.trans hn
    · cases (if_neg hat).symm.trans hn
  · refine if_neg ?_
    rintro ⟨old, hold, path, -, hp⟩
    exact absurd (hpast.made old hold path n hp) (Nat.not_lt.2 hn)

end Steps

/-! ## Every state reached -/

variable {s : State}

theorem roles_of_reach (h : system.Reach plain s) : ∃ role, Roles s role := by
  refine h.invariant (P := fun s => ∃ role, Roles s role) (fun s hs => ?_)
    fun s a s' hP hok hs => ?_
  · obtain ⟨hnames, hbefore, hsaves, hreaders, hanswers⟩ := hs
    -- there is no name and no write
    refine ⟨fun _ => .loose, ⟨⟨?_, ?_, ?_, ?_⟩, ?_, ?_, ?_, fun _ _ => rfl, ?_, ?_, ?_, ?_⟩⟩
    all_goals simp [hnames, hbefore, hsaves, hreaders, hanswers]
  · obtain ⟨role, hr⟩ := hP
    cases a with
    | save k path bytes =>
      have hs : (if (s.saves k).isSome then none else some (s.begin k path bytes)) = some s' := hs
      split_ifs at hs with hfree
      rw [← Option.some.inj hs]
      rw [Option.not_isSome_iff_eq_none] at hfree
      exact ⟨role, hr.begin hfree hok⟩
    | move k m =>
      obtain ⟨save, hk, hm⟩ := Option.bind_eq_some_iff.1 hs
      exact hr.move hk hm
    | remove path =>
      rw [← Option.some.inj hs]
      exact ⟨role, hr.remove path⟩
    | «open» r path =>
      have hs : (if (s.readers r).isSome then none else (s.names path).map fun node =>
        { s with readers := Function.update s.readers r (some ⟨path, node, []⟩) }) = some s' := hs
      split_ifs at hs
      obtain ⟨node, hname, rfl⟩ := Option.map_eq_some_iff.1 hs
      exact ⟨role, hr.opened hok hname⟩
    | read r count =>
      obtain ⟨reader, hreader, rfl⟩ := Option.map_eq_some_iff.1 hs
      exact ⟨role, hr.read hreader count⟩
    | crash older lost pid =>
      have hs : step s (.crash older lost pid) = some s' := hs
      rw [step.eq_def] at hs
      dsimp only at hs
      rcases hdrop : (s.names :: s.before).drop older with _ | ⟨names, before⟩
      all_goals rw [hdrop] at hs
      · cases hs
      · rw [← Option.some.inj hs]
        exact hr.crash hdrop

/-- What is in the files of the storage was written to them in one piece. -/
theorem files_whole (h : system.Reach plain s) {path : String} {node : ℕ}
    (hpath : isTemp path = false) (hname : s.names path = some node) :
    (path, (s.nodes node).data) ∈ s.asked := by
  obtain ⟨role, hr⟩ := roles_of_reach h
  obtain ⟨bytes, hplaced⟩ := hr.past.place _ List.mem_cons_self path node hpath hname
  obtain ⟨hnode, hasked⟩ := hr.placed node path bytes hplaced
  rw [hnode]
  exact hasked

/-! ## Writes that end -/

variable {k : ℕ} {save : Save}

/-- The steps of one write. -/
def own (k : ℕ) (a : Act) : Prop := ∃ m, a = .move k m

/-- A write has ended, and its file is at its place. -/
def Landed (k : ℕ) (save : Save) (s : State) : Prop :=
  s.saves k = none ∧ ∃ node, s.names save.path = some node ∧ (s.nodes node).data = save.bytes

theorem step_move {m : Move} {t : State} (hs : s.saves k = some save)
    (hm : s.move k save save.stage m = some t) : system.step s (.move k m) = some t :=
  Option.bind_eq_some_iff.2 ⟨save, hs, hm⟩

theorem reach_move (h : system.Reach plain s) {m : Move} {t : State}
    (hs : system.step s (.move k m) = some t) : system.Reach plain t :=
  .step h (show plain s (.move k m) from trivial) hs

variable (save) in
theorem leads_written (h : system.Reach plain s) (hs : s.saves k = some save) {node : ℕ}
    (hstage : save.stage = .written node) (hname : s.names (s.temp save) = some node) :
    system.Leads (own k) (Landed k save) s := by
  obtain ⟨role, hr⟩ := roles_of_reach h
  have hready := (hr.save k save hs).ready
  rw [hstage] at hready
  have hm : s.move k save save.stage .rename = some (s.rename k save) := by rw [hstage]; rfl
  refine .step ⟨_, rfl⟩ (step_move hs hm) (.here ?_)
  rw [State.rename, hname]
  exact ⟨Function.update_self .., node, Function.update_self .., congrArg Node.data hready.2⟩

variable (save) in
theorem leads_writing (h : system.Reach plain s) (hs : s.saves k = some save) {node : ℕ}
    {rest : List UInt8} (hstage : save.stage = .writing node rest)
    (hname : s.names (s.temp save) = some node) : system.Leads (own k) (Landed k save) s := by
  have hwrite : s.move k save save.stage (.write rest.length) =
      some (s.write k save node rest rest.length) := by rw [hstage]; rfl
  have hreach := reach_move h (step_move hs hwrite)
  refine .step ⟨_, rfl⟩ (step_move hs hwrite) ?_
  -- nothing is left to be written
  have hs₁ : (s.write k save node rest rest.length).saves k =
      some { save with stage := .writing node (rest.drop rest.length) } := Function.update_self ..
  rw [List.drop_length] at hs₁
  have hsync : (s.write k save node rest rest.length).move k
      { save with stage := .writing node [] } (.writing node []) .sync =
        some ((s.write k save node rest rest.length).sync k
          { save with stage := .writing node [] } node) := by rw [State.move, if_pos rfl]
  refine .step ⟨_, rfl⟩ (step_move hs₁ hsync) ?_
  exact leads_written { save with stage := .written node }
    (reach_move hreach (step_move hs₁ hsync)) (Function.update_self ..) rfl hname

theorem leads_opening (h : system.Reach plain s) (hs : s.saves k = some save)
    (hstage : save.stage = .opening) : system.Leads (own k) (Landed k save) s := by
  have hcreate : s.move k save save.stage .create = some (s.create k save) := by rw [hstage]; rfl
  have hreach := reach_move h (step_move hs hcreate)
  refine .step ⟨_, rfl⟩ (step_move hs hcreate) ?_
  rw [State.create] at hreach ⊢
  rcases hname : s.names (s.temp save) with _ | node
  all_goals rw [hname] at hreach
  · exact leads_writing { save with stage := .writing s.used save.bytes } hreach
      (Function.update_self ..) rfl (Function.update_self ..)
  · exact leads_writing { save with stage := .writing node save.bytes } hreach
      (Function.update_self ..) rfl hname

/-- In every run, whoever reads a file gets what was written to it in one piece, and so is what is
    in the files; and a write whose file beside was not removed can end at its place, whatever else
    is under way. -/
theorem whole (h : system.Reach plain s) :
    (∀ a ∈ s.answers, a ∈ s.asked) ∧
    (∀ path node, isTemp path = false → s.names path = some node →
      (path, (s.nodes node).data) ∈ s.asked) ∧
    ∀ k save, s.saves k = some save → save.stage ≠ .cleaning →
      (∀ node, save.stage.node = some node → s.names (s.temp save) = some node) →
      system.Leads (own k) (Landed k save) s := by
  obtain ⟨role, hr⟩ := roles_of_reach h
  refine ⟨hr.answer, fun path node => files_whole h, fun k save hs hclean hnames => ?_⟩
  rcases hstage : save.stage with _ | ⟨node, rest⟩ | node | _
  · exact leads_opening h hs hstage
  · exact leads_writing save h hs hstage (hnames node (by rw [hstage]; rfl))
  · exact leads_written save h hs hstage (hnames node (by rw [hstage]; rfl))
  · exact absurd hstage hclean

/-! ## A run -/

def unwritten : State where
  nodes := fun _ => ⟨[], false⟩
  used := 0
  names := fun _ => none
  before := []
  pid := 1
  seq := 0
  saves := fun _ => none
  readers := fun _ => none
  asked := []
  answers := []

/-- Two write a file at once, and one reads it meanwhile; the machine goes down before the second
    file is at its place for good, and the next process has the same number. -/
def twice : List Act :=
  [.save 0 "HEAD" [1, 1], .save 1 "HEAD" [2, 2], .move 0 .create, .move 1 .create,
    .move 0 (.write 2), .move 1 (.write 1), .move 0 .sync, .move 0 .rename, .open 0 "HEAD",
    .read 0 1, .move 1 (.write 1), .move 1 .sync, .move 1 .rename, .read 0 1, .read 0 1,
    .crash 1 (fun _ => [9]) 1, .save 0 "HEAD" [3], .move 0 .create, .move 0 (.write 1),
    .open 0 "HEAD", .read 0 5, .read 0 5]

theorem whole_twice : ∃ s : State, system.Reach plain s ∧
    s.answers = [("HEAD", [1, 1]), ("HEAD", [1, 1])] ∧ (∀ a ∈ s.answers, a ∈ s.asked) := by
  have hrun : (((system.guarded plain).run unwritten twice).any fun s =>
      s.answers = [("HEAD", [1, 1]), ("HEAD", [1, 1])]) = true := by
    decide +kernel
  obtain ⟨s, hs, hanswers⟩ := (Option.any_eq_true _ _).1 hrun
  have h₀ : (system.guarded plain).Reachable unwritten :=
    .init ⟨fun _ => rfl, rfl, fun _ => rfl, fun _ => rfl, rfl⟩
  have hreach := (h₀.run hs).of_guarded
  exact ⟨s, hreach, of_decide_eq_true hanswers, (whole hreach).1⟩

end AtomicWrite

end Smrt
