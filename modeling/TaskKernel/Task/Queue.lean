/-
  TaskKernel.Task.Queue

  First-in, first-out queues of task numbers, held as lists with the head first.
-/
import TaskKernel.Task.Basic

namespace TaskKernel

/-- A queue of tasks, head first. -/
structure TaskQueue where
  ids : List TaskId
deriving DecidableEq, Repr

namespace TaskQueue

def empty : TaskQueue := ⟨[]⟩

/-- Adds a task at the tail. -/
def push (q : TaskQueue) (id : TaskId) : TaskQueue := ⟨q.ids ++ [id]⟩

/-- Takes the task at the head. -/
def pop (q : TaskQueue) : Option TaskId × TaskQueue := (q.ids.head?, ⟨q.ids.tail⟩)

def front? (q : TaskQueue) : Option TaskId := q.ids.head?

def contains (q : TaskQueue) (id : TaskId) : Bool := q.ids.contains id

/-- Takes the first occurrence of a task out, keeping the others in order. -/
def erase (q : TaskQueue) (id : TaskId) : TaskQueue := ⟨q.ids.erase id⟩

def length (q : TaskQueue) : Nat := q.ids.length

def isEmpty (q : TaskQueue) : Bool := q.ids.isEmpty

end TaskQueue

end TaskKernel
