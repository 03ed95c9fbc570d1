import Workflow.Graph.Basic
import Workflow.Value.Quantity

/-!
# Histories of a graph

A history is a row of snapshots with a place in it. Saving after a step back discards what
lay ahead, and a full history forgets its oldest snapshot. While a snapshot is applied
nothing is saved.
-/

namespace Workflow

/-- The snapshots of a graph, at most as many as its cap, and the place of the current
one. -/
structure History where
  cap : Nat
  snapshots : List Graph
  index : Nat
  applying : Bool
  index_lt : index < snapshots.length
  size_le : snapshots.length ≤ cap
  deriving DecidableEq, Repr

namespace History

def defaultCap : Int := 50

/-- The history of an empty graph with the cap asked for, which is at least two. -/
def ofCap (asked : Int) : History where
  cap := (max 2 asked).toNat
  snapshots := [.empty]
  index := 0
  applying := false
  index_lt := by simp
  size_le := by have := Int.le_max_left 2 asked; simp only [List.length_singleton]; omega

/-- The history of an empty graph with the cap given as a value. -/
def ofValue (asked : Value) : Except Fault History := do return ofCap (← asked.toInteger)

def size (h : History) : Nat := h.snapshots.length

def current (h : History) : Graph := h.snapshots.get ⟨h.index, h.index_lt⟩

def canUndo (h : History) : Bool := 0 < h.index

def canRedo (h : History) : Bool := h.index + 1 < h.size

/-- The snapshots that stay when the graph is saved: those up to the current one and the new
one, without the oldest if they are too many. -/
def snapshotsWith (h : History) (g : Graph) : List Graph :=
  let saved := h.snapshots.take (h.index + 1) ++ [g]
  if h.cap < saved.length then saved.tail else saved

theorem length_snapshotsWith (h : History) (g : Graph) :
    0 < (h.snapshotsWith g).length ∧ (h.snapshotsWith g).length ≤ h.cap := by
  have := h.index_lt
  have := h.size_le
  have length : (h.snapshots.take (h.index + 1) ++ [g]).length = h.index + 2 := by
    simp only [List.length_append, List.length_take, List.length_singleton]
    omega
  simp only [snapshotsWith]
  split <;> simp only [List.length_tail, length] <;> omega

def save (h : History) (g : Graph) : History :=
  if h.applying then h
  else { h with
    snapshots := h.snapshotsWith g
    index := (h.snapshotsWith g).length - 1
    index_lt := by have := h.length_snapshotsWith g; omega
    size_le := (h.length_snapshotsWith g).2 }

/-- Steps back, and gives the snapshot that is then current. -/
def undo (h : History) : Option Graph × History :=
  if 0 < h.index then
    let h' : History := { h with
      index := h.index - 1
      index_lt := by have := h.index_lt; omega }
    (some h'.current, h')
  else (none, h)

/-- Steps forward, and gives the snapshot that is then current. -/
def redo (h : History) : Option Graph × History :=
  if ahead : h.index + 1 < h.snapshots.length then
    let h' : History := { h with index := h.index + 1, index_lt := ahead }
    (some h'.current, h')
  else (none, h)

def reset (h : History) : History := { h with
  snapshots := [.empty]
  index := 0
  index_lt := by simp
  size_le := by have := h.index_lt; have := h.size_le; simp; omega }

def beginApply (h : History) : History := { h with applying := true }

def endApply (h : History) : History := { h with applying := false }

end History
end Workflow
