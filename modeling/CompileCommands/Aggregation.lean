import CompileCommands.Entry
import CompileCommands.OrderedMap
import CompileCommands.OrderedUnique

set_option autoImplicit false

/- An aggregation holds the entries of labels, computed at most once for each label, and the order
in which the labels stand. A label gets its place when it is ordered before anyone asked for its
entries, or else when its entries are computed; it is locked from its first mention on. -/
namespace CompileCommands

structure Aggregation where
  entries : Table String (List Entry)
  order : List String
  locks : List String
  computed : Nat
  deriving DecidableEq, Repr

namespace Aggregation

def empty : Aggregation := ⟨[], [], [], 0⟩

def find? (aggregation : Aggregation) (label : String) : Option (List Entry) :=
  aggregation.entries.find? label

def contains (aggregation : Aggregation) (label : String) : Bool :=
  (aggregation.find? label).isSome

def entriesFor (aggregation : Aggregation) (label : String) : List Entry :=
  (aggregation.find? label).getD []

/-- The labels whose entries are computed, in order. -/
def labels (aggregation : Aggregation) : List String :=
  aggregation.order.filter aggregation.contains

def size (aggregation : Aggregation) : Nat := aggregation.entries.length

/-- The entries of all labels, in the order of the labels. -/
def flatten (aggregation : Aggregation) : List Entry :=
  aggregation.order.flatMap aggregation.entriesFor

/-- Whether two aggregations look the same from outside. -/
structure LooksLike (one other : Aggregation) : Prop where
  labels : one.labels = other.labels
  size : one.size = other.size
  computed : one.computed = other.computed
  entriesFor : ∀ label, one.entriesFor label = other.entriesFor label
  flatten : one.flatten = other.flatten

theorem LooksLike.of_find? {one other : Aggregation} (found : one.find? = other.find?)
    (order : one.order = other.order) (size : one.size = other.size)
    (computed : one.computed = other.computed) : one.LooksLike other := by
  have contains : one.contains = other.contains := by
    funext label
    rw [Aggregation.contains, found, Aggregation.contains]
  have entriesFor : one.entriesFor = other.entriesFor := by
    funext label
    rw [Aggregation.entriesFor, found, Aggregation.entriesFor]
  refine ⟨?_, size, computed, congrFun entriesFor, ?_⟩
  · rw [Aggregation.labels, order, contains, Aggregation.labels]
  · rw [Aggregation.flatten, order, entriesFor, Aggregation.flatten]

def lock (aggregation : Aggregation) (label : String) : Aggregation :=
  { aggregation with locks := appendNew aggregation.locks label }

/-- Gives a label its place, unless it is locked already. -/
def addOrder (aggregation : Aggregation) (label : String) : Aggregation :=
  if label ∈ aggregation.locks then aggregation
  else { aggregation.lock label with order := appendNew aggregation.order label }

theorem mem_locks_lock (aggregation : Aggregation) (label other : String) :
    other ∈ (aggregation.lock label).locks ↔ other ∈ aggregation.locks ∨ other = label :=
  mem_appendNew aggregation.locks label other

theorem mem_locks_addOrder (aggregation : Aggregation) (label other : String) :
    other ∈ (aggregation.addOrder label).locks ↔ other ∈ aggregation.locks ∨ other = label := by
  rw [addOrder]
  split
  · next locked =>
    constructor
    · exact .inl
    · rintro (member | rfl)
      · exact member
      · exact locked
  · exact mem_locks_lock aggregation label other

theorem order_addOrder (aggregation : Aggregation) (label : String) :
    (aggregation.addOrder label).order =
      if label ∈ aggregation.locks then aggregation.order
      else appendNew aggregation.order label := by
  rw [addOrder]
  split <;> rfl

@[simp] theorem entries_addOrder (aggregation : Aggregation) (label : String) :
    (aggregation.addOrder label).entries = aggregation.entries := by
  rw [addOrder]
  split <;> rfl

@[simp] theorem computed_addOrder (aggregation : Aggregation) (label : String) :
    (aggregation.addOrder label).computed = aggregation.computed := by
  rw [addOrder]
  split <;> rfl

/-- Keeps computed entries. -/
def store (aggregation : Aggregation) (label : String) (entries : List Entry) : Aggregation :=
  { aggregation with
    entries := aggregation.entries.insert label entries
    order := appendNew aggregation.order label
    computed := aggregation.computed + 1 }

/-- The entries of a label, computed unless they are there. The computation may use the aggregation
itself, which `nested` tells; a failed one leaves nothing but the lock. -/
def getOrCompute {ε : Type} (aggregation : Aggregation) (label : String)
    (nested : Aggregation → Aggregation) (outcome : Except ε (List Entry)) :
    Aggregation × Except ε (List Entry) :=
  match aggregation.find? label with
  | some entries => (aggregation, .ok entries)
  | none =>
      let later := nested (aggregation.lock label)
      match outcome with
      | .error fault => (later, .error fault)
      | .ok entries => (later.store label entries, .ok entries)

/-- One use of an aggregation. A computation first takes the nested steps. -/
inductive Step where
  | addOrder (label : String)
  | compute (label : String) (nested : List Step) (outcome : Except String (List Entry))
  | contains (label : String)
  | entriesFor (label : String)

/-- What a step answered, and the aggregation after it. `ran` tells whether the computation of the
step was needed, and then what its nested steps answered. -/
inductive Report where
  | ordered (after : Aggregation)
  | computed (after : Aggregation) (result : Except String (List Entry)) (ran : Bool)
      (nested : List Report)
  | contained (after : Aggregation) (answer : Bool)
  | entries (after : Aggregation) (answer : List Entry)

mutual

def perform (aggregation : Aggregation) : Step → Aggregation × Report
  | .addOrder label =>
      let after := aggregation.addOrder label
      (after, .ordered after)
  | .compute label nested outcome =>
      match aggregation.find? label with
      | some entries => (aggregation, .computed aggregation (.ok entries) false [])
      | none =>
          let inner := performAll (aggregation.lock label) nested
          match outcome with
          | .error fault => (inner.1, .computed inner.1 (.error fault) true inner.2)
          | .ok entries =>
              let after := inner.1.store label entries
              (after, .computed after (.ok entries) true inner.2)
  | .contains label => (aggregation, .contained aggregation (aggregation.contains label))
  | .entriesFor label => (aggregation, .entries aggregation (aggregation.entriesFor label))

def performAll (aggregation : Aggregation) : List Step → Aggregation × List Report
  | [] => (aggregation, [])
  | step :: rest =>
      let first := perform aggregation step
      let others := performAll first.1 rest
      (others.1, first.2 :: others.2)

end

end Aggregation

end CompileCommands
