import Traft.ConcurrentQueue.FreeListLedger
import Traft.Semantics.Run

/-!
# Threads on one free list

Threads add nodes and get them back, in any order. A client adds only nodes it
has. Then a node that is taken off the list is taken by one thread, nothing the
source remarks about its counts is wrong, and no node is lost.
-/

namespace Traft.Moodycamel.FreeList

open Traft.Semantics

/-- A free list, where each thread is inside its methods, and which nodes are the
client's. -/
structure Sharing (ι N : Type) where
  list : FreeList N
  places : ι → Option (Method N × Point N)
  owned : N → Bool

/-- What happens: a thread calls a method, makes an operation of it, or returns. -/
inductive Event (ι N : Type) where
  | call (thread : ι) (method : Method N)
  | advance (thread : ι)
  | finish (thread : ι) (result : Option N)

section Client

variable {N : Type} [DecidableEq N]

/-- The client has no longer what it adds. -/
def Method.brings (owned : N → Bool) : Method N → N → Bool
  | .add node => Function.update owned node false
  | .tryGet => owned

/-- The client has what it got. -/
def gains (owned : N → Bool) : Option N → N → Bool
  | some node => Function.update owned node true
  | none => owned

end Client

namespace Sharing

section Moves

variable {ι N : Type} [DecidableEq ι]

/-- The places with one thread elsewhere. -/
def move (state : Sharing ι N) (thread : ι) (place : Option (Method N × Point N)) :
    ι → Option (Method N × Point N) :=
  Function.update state.places thread place

/-- A thread somewhere is the one that moved there, or was there before. -/
theorem move_cases (state : Sharing ι N) {thread other : ι}
    {place inside : Option (Method N × Point N)} (there : state.move thread place other = inside) :
    (other = thread ∧ place = inside) ∨ (other ≠ thread ∧ state.places other = inside) := by
  by_cases same : other = thread
  · subst same
    rw [move, Function.update_self] at there
    exact .inl ⟨rfl, there⟩
  · rw [move, Function.update_of_ne same] at there
    exact .inr ⟨same, there⟩

end Moves

section Results

variable {ι N : Type}

/-- A thread has taken a node off the list and is about to return it. -/
def Takes (state : Sharing ι N) (thread : ι) (node : N) : Prop :=
  ∃ method point, state.places thread = some (method, point) ∧ point.taken = some node

/-- What is taken off the list is taken by one thread, and is nowhere else. The
last is what the source asserts. -/
structure Exclusive (state : Sharing ι N) : Prop where
  alone : ∀ {thread other node}, state.Takes thread node → state.Takes other node →
    thread = other
  unowned : ∀ {thread node}, state.Takes thread node → state.owned node = false
  unlisted : ∀ {thread node nodes}, state.Takes thread node →
    Linked state.list.next state.list.head nodes → node ∉ nodes
  unmarked : ∀ {thread node}, state.Takes thread node →
    state.list.refs node < shouldBeOnFreelist

/-- What the source remarks about a node: its mark is not set when it is added; one
thread at a time is inside `add_knowing_refcount_is_zero` with it, where the count
is zero at first; its next pointer does not change while a thread is about to pop
it; and all references are counted. -/
structure Remarked (state : Sharing ι N) : Prop where
  unmarked : ∀ {thread method node}, state.places thread = some (method, .mark node) →
    state.list.refs node < shouldBeOnFreelist
  single : ∀ {thread method point other another elsewhere node},
    state.places thread = some (method, point) → state.places other = some (another, elsewhere) →
    point.adds = true → elsewhere.adds = true → point.node = some node →
    elsewhere.node = some node → thread = other
  unreferenced : ∀ {thread method point node}, state.places thread = some (method, point) →
    point.node = some node → point.prepares = 1 → state.list.refs node = shouldBeOnFreelist
  unchanged : ∀ {thread method node next}, state.places thread = some (method, .pop node next) →
    state.list.next node = next
  counted : ∀ {thread method point node}, state.places thread = some (method, point) →
    point.node = some node → point.references ≤ (state.list.refs node % (refsMask + 1) : Nat)

/-- Between calls the nodes that the client has not are on the list, each with the
one reference of the list, and there is none to the others. -/
structure Complete (nodes : List N) (state : Sharing ι N) : Prop where
  linked : Linked state.list.next state.list.head nodes
  distinct : nodes.Nodup
  members : ∀ node, node ∈ nodes ↔ state.owned node = false
  once : ∀ node, node ∈ nodes → state.list.refs node = 1
  unreferenced : ∀ node, node ∉ nodes → state.list.refs node = 0

end Results

section Accounts

variable {ι N : Type} [Fintype ι] [DecidableEq N]

/-- What the client and all threads have of a node. -/
def shares (state : Sharing ι N) (node : N) : Shares where
  owned := if state.owned node then 1 else 0
  references := total (weigh (Point.about Point.references node)) state.places
  carries := total (weigh (Point.about Point.carries node)) state.places
  prepares := total (weigh (Point.about Point.prepares node)) state.places

/-- The same without one thread. -/
def others (state : Sharing ι N) (thread : ι) (node : N) : Shares where
  owned := (state.shares node).owned
  references := (state.shares node).references -
    weigh (Point.about Point.references node) (state.places thread)
  carries := (state.shares node).carries -
    weigh (Point.about Point.carries node) (state.places thread)
  prepares := (state.shares node).prepares -
    weigh (Point.about Point.prepares node) (state.places thread)

/-- The accounts of all nodes are balanced, and threads know what they have read. -/
structure Kept (nodes : List N) (state : Sharing ι N) : Prop where
  linked : Linked state.list.next state.list.head nodes
  distinct : nodes.Nodup
  accounts : ∀ node, Settled (state.list.refs node) nodes node (state.shares node) 0 0 0
  knows : ∀ thread method point, state.places thread = some (method, point) →
    point.Knows state.list

/-- So few threads that a count can tell the references they all may have. -/
def Few (ι : Type) [Fintype ι] : Prop :=
  Fintype.card ι ≤ 536870912

/-- Nobody has less than nothing of a node, and few threads have few references. -/
theorem others_sound (few : Few ι) (state : Sharing ι N) (thread : ι) (node : N) :
    (state.others thread node).Sound := by
  have references := fun point => Point.about_bounds Point.references_bounds node point
  have carries := fun point => Point.about_bounds Point.carries_bounds node point
  have prepares := fun point => Point.about_bounds Point.prepares_bounds node point
  have refers := fun other => weigh_nonneg (fun point => (references point).1) (state.places other)
  have all := total_le_card fun other =>
    weigh_le (by decide) (fun point => (references point).2) (state.places other)
  have own := refers thread
  have few : Fintype.card ι ≤ 536870912 := few
  constructor
  · simp only [others, shares]
    split <;> decide
  · exact Int.sub_nonneg_of_le (weight_le_total refers thread)
  · simp only [others, shares]
    omega
  · exact Int.sub_nonneg_of_le (weight_le_total
      (fun other => weigh_nonneg (fun point => (carries point).1) (state.places other)) thread)
  · exact Int.sub_nonneg_of_le (weight_le_total
      (fun other => weigh_nonneg (fun point => (prepares point).1) (state.places other)) thread)

/-- The account of a node, where one thread has `place` and the others the rest. -/
def Has (list : FreeList N) (nodes : List N) (node : N) (owned : Int) (others : Shares)
    (place : Option (Method N × Point N)) : Prop :=
  Settled (list.refs node) nodes node { others with owned }
    (weigh (Point.about Point.references node) place)
    (weigh (Point.about Point.carries node) place)
    (weigh (Point.about Point.prepares node) place)

/-- Inside a method a thread has what it has at its point. -/
theorem Has.of_point {list : FreeList N} {nodes : List N} {node : N} {owned : Int} {others : Shares}
    {method : Method N} {point : Point N} {references carries prepares : Int}
    (has : point.Has node references carries prepares)
    (settled : Settled (list.refs node) nodes node { others with owned } references carries
      prepares) : Has list nodes node owned others (some (method, point)) := by
  obtain ⟨rfl, rfl, rfl⟩ := has
  exact settled

namespace Kept

variable {nodes : List N} {state : Sharing ι N}

/-- What one thread has of a node, and the others. -/
theorem has (kept : state.Kept nodes) {thread : ι} {place : Option (Method N × Point N)}
    (here : state.places thread = place) (node : N) :
    Has state.list nodes node (if state.owned node then 1 else 0) (state.others thread node)
      place := by
  subst here
  obtain ⟨count, carried, prepared⟩ := kept.accounts node
  simp only [shares] at count carried prepared
  constructor <;> (simp only [others, shares]; omega)

/-- What one thread carries is nowhere else, and not marked. -/
theorem carried (kept : state.Kept nodes) (few : Few ι) {thread : ι} {method : Method N}
    {point : Point N} {node : N} (here : state.places thread = some (method, point))
    (own : point.node = some node) (carries : point.carries = 1) :
    node ∉ nodes ∧ state.owned node = false ∧ state.list.refs node < shouldBeOnFreelist := by
  have has := Point.has_of_node own
  obtain ⟨count, place, prepared⟩ := kept.has here node
  obtain ⟨owned, references, small, holds, prepares⟩ := others_sound few state thread node
  have bounds := Point.references_bounds point
  have flag : shouldBeOnFreelist = 2147483648 := rfl
  have nonneg : 0 ≤ if state.owned node then (1 : Int) else 0 := owned
  simp only [weigh, has.references, has.carries, carries] at count place
  rcases listed_cases nodes node with ⟨_, there⟩ | ⟨absent, there⟩
  · omega
  · refine ⟨absent, ?_, by omega⟩
    cases owns : state.owned node with
    | false => rfl
    | true =>
        rw [owns, if_pos rfl] at place
        omega

/-- What one thread prepares is marked, and nobody refers to it. -/
theorem prepared (kept : state.Kept nodes) {thread : ι} {method : Method N} {point : Point N}
    {node : N} (few : Few ι) (here : state.places thread = some (method, point))
    (own : point.node = some node) (prepares : point.prepares = 1) :
    state.list.refs node = shouldBeOnFreelist := by
  have has := Point.has_of_node own
  obtain ⟨count, place, prepared⟩ := kept.has here node
  obtain ⟨_, _, _, _, works⟩ := others_sound few state thread node
  have flag : shouldBeOnFreelist = 2147483648 := rfl
  simp only [weigh, has.prepares, prepares] at prepared
  omega

/-- The references of a thread are counted. -/
theorem counted (kept : state.Kept nodes) {thread : ι} {method : Method N} {point : Point N}
    {node : N} (few : Few ι) (here : state.places thread = some (method, point))
    (own : point.node = some node) :
    point.references ≤ (state.list.refs node % (refsMask + 1) : Nat) := by
  have has := Point.has_of_node own
  obtain ⟨count, place, _⟩ := kept.has here node
  obtain ⟨owned, references, small, holds, _⟩ := others_sound few state thread node
  have bounds := Point.references_bounds point
  have carrying := Point.carries_bounds point
  have listed := listed_cases nodes node
  have mask : refsMask + 1 = 2147483648 := rfl
  have nonneg : 0 ≤ if state.owned node then (1 : Int) else 0 := owned
  simp only [weigh, has.references, has.carries] at count place
  rw [mask]
  omega

/-- Between calls no node is lost. -/
theorem complete (kept : state.Kept nodes) (idle : ∀ thread, state.places thread = none) :
    state.Complete nodes := by
  have places : state.places = fun _ => none := funext idle
  have account (node : N) : listed nodes node + (if state.owned node then 1 else 0) = 1 ∧
      (state.list.refs node : Int) = listed nodes node := by
    obtain ⟨count, place, prepared⟩ := kept.accounts node
    have listed := listed_cases nodes node
    have owned : 0 ≤ if state.owned node then (1 : Int) else 0 := by split <;> decide
    simp only [shares, places, total_idle] at count place prepared
    omega
  refine ⟨kept.linked, kept.distinct, fun node => ?_, fun node present => ?_,
    fun node absent => ?_⟩
  · obtain ⟨place, _⟩ := account node
    rcases listed_cases nodes node with ⟨present, there⟩ | ⟨absent, there⟩
    · cases owns : state.owned node with
      | false => exact iff_of_true present rfl
      | true => rw [there, owns, if_pos rfl] at place; cases place
    · cases owns : state.owned node with
      | false => rw [there, owns, if_neg Bool.false_ne_true] at place; cases place
      | true => exact iff_of_false absent Bool.false_ne_true.symm
  · have count := (account node).2
    rw [listed, if_pos present] at count
    exact Int.ofNat.inj count
  · have count := (account node).2
    rw [listed, if_neg absent] at count
    exact Int.ofNat.inj count

end Kept

end Accounts

variable {ι N : Type} [DecidableEq ι] [DecidableEq N]

/-- One thread goes on. -/
inductive Step : Sharing ι N → Event ι N → Sharing ι N → Prop where
  | call {state thread} (method : Method N) (idle : state.places thread = none)
      (has : ∀ node, method = .add node → state.owned node = true) :
      Step state (.call thread method)
        { state with
          places := state.move thread (some (method, method.start))
          owned := method.brings state.owned }
  | advance {state thread method point list after}
      (here : state.places thread = some (method, point))
      (moves : state.list.advance point = some (list, after)) :
      Step state (.advance thread)
        { state with list, places := state.move thread (some (method, after)) }
  | finish {state thread method result}
      (here : state.places thread = some (method, .done result)) :
      Step state (.finish thread result)
        { state with places := state.move thread none, owned := gains state.owned result }

/-- The runs of a free list that starts empty, where the client has all nodes. -/
def system (ι N : Type) [DecidableEq ι] [DecidableEq N] : StepSystem (Event ι N) where
  State := Sharing ι N
  Initial state := state = { list := .new, places := fun _ => none, owned := fun _ => true }
  Step := Step

variable [Fintype ι]

/-- A thread that moves has what it has, and the others what they had. -/
theorem settled_move (state : Sharing ι N) (thread : ι) (place : Option (Method N × Point N))
    (list : FreeList N) (nodes : List N) (owned : N → Bool) (node : N)
    (has : Has list nodes node (if owned node then 1 else 0) (state.others thread node) place) :
    Settled (list.refs node) nodes node
      (Sharing.shares { list, places := state.move thread place, owned } node) 0 0 0 := by
  obtain ⟨count, carried, prepared⟩ := has
  simp only [others, shares] at count carried prepared
  constructor <;> (simp only [shares, move, total_update]; omega)

namespace Kept

variable {nodes : List N} {state : Sharing ι N}

/-- A node is not prepared by one thread while another refers to it. -/
theorem quiet (kept : state.Kept nodes) (few : Few ι) {thread other : ι}
    {method another : Method N} {point elsewhere : Point N}
    (here : state.places thread = some (method, point))
    (there : state.places other = some (another, elsewhere)) (apart : other ≠ thread) {node : N}
    (refers : 0 < elsewhere.about Point.references node + elsewhere.about Point.prepares node) :
    point.about Point.prepares node = 0 := by
  obtain ⟨count, place, prepared⟩ := kept.has here node
  obtain ⟨owned, references, small, carries, prepares⟩ := others_sound few state thread node
  have listed := listed_cases nodes node
  have own := Point.about_bounds Point.references_bounds node point
  have works := Point.about_bounds Point.prepares_bounds node point
  have holds := Point.about_bounds Point.carries_bounds node point
  have referring : weigh (Point.about Point.references node) (state.places thread) +
      weigh (Point.about Point.references node) (state.places other) ≤
        (state.shares node).references :=
    pair_le_total (fun third => weigh_nonneg (fun place =>
      (Point.about_bounds Point.references_bounds node place).1) (state.places third)) apart.symm
  have preparing : weigh (Point.about Point.prepares node) (state.places thread) +
      weigh (Point.about Point.prepares node) (state.places other) ≤
        (state.shares node).prepares :=
    pair_le_total (fun third => weigh_nonneg (fun place =>
      (Point.about_bounds Point.prepares_bounds node place).1) (state.places third)) apart.symm
  simp only [others, shares, here, there, weigh] at *
  omega

/-- A thread moves on, and the client has other nodes. -/
theorem step (kept : state.Kept nodes) {thread : ι} {place : Option (Method N × Point N)}
    {owned : N → Bool}
    (has : ∀ node, Has state.list nodes node (if owned node then 1 else 0)
      (state.others thread node) place)
    (knows : ∀ method point, place = some (method, point) → point.Knows state.list) :
    Kept nodes { state with places := state.move thread place, owned } where
  linked := kept.linked
  distinct := kept.distinct
  accounts node := state.settled_move thread place state.list nodes owned node (has node)
  knows := by
    intro other method point there
    rcases state.move_cases there with ⟨_, moved⟩ | ⟨_, before⟩
    · exact knows method point moved
    · exact kept.knows other method point before

/-- A thread calls a method. -/
theorem call (kept : state.Kept nodes) {thread : ι} {method : Method N}
    (idle : state.places thread = none)
    (has : ∀ node, method = .add node → state.owned node = true) :
    Kept nodes { state with
      places := state.move thread (some (method, method.start))
      owned := method.brings state.owned } := by
  have before (node : N) := kept.has idle node
  cases method with
  | tryGet =>
      refine kept.step (fun node => Has.of_point (Point.leaves_of_ne nofun) (before node)) ?_
      rintro _ _ ⟨⟩
      trivial
  | add own =>
      refine kept.step (fun node => ?_) ?_
      · obtain ⟨count, place, prepared⟩ := before node
        simp only [weigh] at count place prepared
        by_cases same : node = own
        · subst same
          have owned := has node rfl
          have added : Method.brings state.owned (.add node) node = false :=
            Function.update_self ..
          rw [owned, if_pos rfl] at count place
          rw [added]
          have brought : (Point.mark node).Has node 0 1 0 := Point.has_of_node rfl
          apply Has.of_point brought
          constructor <;> (simp only [Bool.false_eq_true, if_false]; omega)
        · have kept : Method.brings state.owned (.add own) node = state.owned node :=
            Function.update_of_ne same ..
          rw [kept]
          have leaves : (Point.mark own).Has node 0 0 0 :=
            Point.leaves_of_ne fun here => same (Option.some.inj here).symm
          exact Has.of_point leaves ⟨count, place, prepared⟩
      · rintro _ _ ⟨⟩
        trivial

/-- A thread makes an operation. -/
theorem advance (kept : state.Kept nodes) (few : Few ι) {thread : ι} {method : Method N}
    {point after : Point N} {list : FreeList N}
    (here : state.places thread = some (method, point))
    (moves : state.list.advance point = some (list, after)) :
    ∃ behind, Kept behind
      { state with list, places := state.move thread (some (method, after)) } := by
  have accounts : state.list.Accounts nodes (state.others thread) point := kept.has here
  obtain ⟨behind, linked, distinct, balanced⟩ := accounts.advance kept.linked kept.distinct
    (others_sound few state thread) (kept.knows thread method point here) moves
  refine ⟨behind, linked, distinct, ?_, ?_⟩
  · intro node
    exact state.settled_move thread (some (method, after)) list behind state.owned node
      (balanced node)
  · intro other another elsewhere there
    rcases state.move_cases there with ⟨_, moved⟩ | ⟨apart, before⟩
    · obtain ⟨⟩ := moved
      exact advance_knows moves (kept.knows thread method point here)
    · refine (kept.knows other another elsewhere before).mono fun node refers => ?_
      exact advance_next moves (kept.quiet few here before apart refers)

/-- A thread returns. -/
theorem finish (kept : state.Kept nodes) (few : Few ι) {thread : ι} {method : Method N}
    {result : Option N} (here : state.places thread = some (method, .done result)) :
    Kept nodes { state with
      places := state.move thread none
      owned := gains state.owned result } := by
  refine kept.step (fun node => ?_) nofun
  have before := kept.has here node
  obtain ⟨owned, references, small, carries, prepares⟩ := others_sound few state thread node
  by_cases same : result = some node
  · subst same
    have taken : (Point.done (some node)).Has node 0 1 0 := Point.has_of_node rfl
    have gained : gains state.owned (some node) node = true := Function.update_self ..
    obtain ⟨count, place, prepared⟩ := before
    have listed := listed_cases nodes node
    simp only [weigh, taken.references, taken.carries, taken.prepares, others, shares]
      at count place prepared owned carries
    rw [gained]
    constructor <;> (simp only [weigh, others, shares, if_true]; omega)
  · have leaves : (Point.done result).Has node 0 0 0 := Point.leaves_of_ne same
    have kept : gains state.owned result node = state.owned node := by
      cases result with
      | none => rfl
      | some got => exact Function.update_of_ne (fun here => same (congrArg some here.symm)) ..
    obtain ⟨count, place, prepared⟩ := before
    simp only [weigh, leaves.references, leaves.carries, leaves.prepares] at count place prepared
    rw [kept]
    exact ⟨count, place, prepared⟩

end Kept

namespace Kept

variable {nodes : List N} {state : Sharing ι N}

/-- One thread at a time carries a node. -/
theorem carrier (kept : state.Kept nodes) {thread other : ι} {method another : Method N}
    {point elsewhere : Point N} {node : N} (here : state.places thread = some (method, point))
    (there : state.places other = some (another, elsewhere)) (own : point.node = some node)
    (same : elsewhere.node = some node) (carries : point.carries = 1)
    (too : elsewhere.carries = 1) : thread = other := by
  obtain ⟨_, place, _⟩ := kept.accounts node
  have owned : 0 ≤ (state.shares node).owned := by
    simp only [shares]
    split <;> decide
  have listed := listed_cases nodes node
  have nonneg (third : ι) : 0 ≤ weigh (Point.about Point.carries node) (state.places third) :=
    weigh_nonneg (fun place => (Point.about_bounds Point.carries_bounds node place).1) _
  simp only [shares] at place owned
  apply eq_of_total_le_one nonneg (by omega)
  · rw [here, weigh, (Point.has_of_node own).carries, carries]
  · rw [there, weigh, (Point.has_of_node same).carries, too]

/-- One thread at a time prepares a node. -/
theorem preparer (kept : state.Kept nodes) {thread other : ι} {method another : Method N}
    {point elsewhere : Point N} {node : N} (here : state.places thread = some (method, point))
    (there : state.places other = some (another, elsewhere)) (own : point.node = some node)
    (same : elsewhere.node = some node) (prepares : point.prepares = 1)
    (too : elsewhere.prepares = 1) : thread = other := by
  obtain ⟨_, _, prepared⟩ := kept.accounts node
  have nonneg (third : ι) : 0 ≤ weigh (Point.about Point.prepares node) (state.places third) :=
    weigh_nonneg (fun place => (Point.about_bounds Point.prepares_bounds node place).1) _
  simp only [shares] at prepared
  apply eq_of_total_le_one nonneg (by omega)
  · rw [here, weigh, (Point.has_of_node own).prepares, prepares]
  · rw [there, weigh, (Point.has_of_node same).prepares, too]

/-- The remarks of the source are right. -/
theorem remarked (kept : state.Kept nodes) (few : Few ι) : state.Remarked where
  unmarked here := (kept.carried few here rfl rfl).2.2
  single := by
    intro thread method point other another elsewhere node here there adds too own same
    obtain ⟨one, _⟩ := Point.adds_weighs adds
    obtain ⟨again, _⟩ := Point.adds_weighs too
    have first := Point.prepares_bounds point
    have second := Point.prepares_bounds elsewhere
    rcases Int.lt_or_le 0 point.prepares with prepares | carries
    · have marked := kept.prepared few here own (by omega)
      rcases Int.lt_or_le 0 elsewhere.prepares with prepares | carries
      · exact kept.preparer here there own same (by omega) (by omega)
      · have clear := (kept.carried few there same (by omega)).2.2
        omega
    · have clear := (kept.carried few here own (by omega)).2.2
      rcases Int.lt_or_le 0 elsewhere.prepares with prepares | carries
      · have marked := kept.prepared few there same (by omega)
        omega
      · exact kept.carrier here there own same (by omega) (by omega)
  unreferenced here own prepares := kept.prepared few here own prepares
  unchanged here := kept.knows _ _ _ here
  counted here own := kept.counted few here own

/-- What is taken is taken by one thread. -/
theorem exclusive (kept : state.Kept nodes) (few : Few ι) : state.Exclusive := by
  have apart {thread : ι} {node : N} (takes : state.Takes thread node) :
      node ∉ nodes ∧ state.owned node = false ∧ state.list.refs node < shouldBeOnFreelist := by
    obtain ⟨_, point, here, taken⟩ := takes
    obtain ⟨own, carries⟩ := Point.taken_carries taken
    exact kept.carried few here own carries
  constructor
  · rintro thread other node ⟨_, point, here, taken⟩ ⟨_, elsewhere, there, too⟩
    obtain ⟨own, carries⟩ := Point.taken_carries taken
    obtain ⟨same, again⟩ := Point.taken_carries too
    exact kept.carrier here there own same carries again
  · exact fun takes => (apart takes).2.1
  · intro thread node others takes linked
    rw [linked.unique kept.linked]
    exact (apart takes).1
  · exact fun takes => (apart takes).2.2

end Kept

/-- Few threads keep the accounts balanced. -/
def keeping (ι N : Type) [Fintype ι] [DecidableEq ι] [DecidableEq N] (few : Few ι) :
    (system ι N).Invariant where
  Holds _ state := ∃ nodes, state.Kept nodes
  initial := by
    rintro _ rfl
    refine ⟨[], rfl, List.nodup_nil, fun node => ?_, nofun⟩
    simp only [shares, total_idle]
    constructor <;> simp [listed, FreeList.new]
  preserved := by
    rintro events state event next ⟨nodes, kept⟩ step
    cases step with
    | call method idle has => exact ⟨nodes, kept.call idle has⟩
    | advance here moves => exact kept.advance few here moves
    | finish here => exact ⟨nodes, kept.finish few here⟩

/-- However threads interleave, a node that is taken off the list is taken by one
thread, and neither on the list nor with the client. -/
theorem always_exclusive (ι N : Type) [Fintype ι] [DecidableEq ι] [DecidableEq N]
    (events : List (Event ι N)) :
    (system ι N).Always (fun _ state => Few ι → state.Exclusive) events := by
  intro before state _ run few
  obtain ⟨nodes, kept⟩ := (keeping ι N few).of_runs run
  exact kept.exclusive few

/-- However threads interleave, what the source remarks about the counts and the
next pointers is right. -/
theorem always_remarked (ι N : Type) [Fintype ι] [DecidableEq ι] [DecidableEq N]
    (events : List (Event ι N)) :
    (system ι N).Always (fun _ state => Few ι → state.Remarked) events := by
  intro before state _ run few
  obtain ⟨nodes, kept⟩ := (keeping ι N few).of_runs run
  exact kept.remarked few

/-- Whenever all threads have returned, the list holds exactly the nodes that the
client has not, each of them once. -/
theorem always_complete (ι N : Type) [Fintype ι] [DecidableEq ι] [DecidableEq N]
    (events : List (Event ι N)) :
    (system ι N).Always (fun _ state => Few ι →
      (∀ thread, state.places thread = none) → ∃ nodes, state.Complete nodes) events := by
  intro before state _ run few idle
  obtain ⟨nodes, kept⟩ := (keeping ι N few).of_runs run
  exact ⟨nodes, kept.complete idle⟩

end Sharing

end Traft.Moodycamel.FreeList
