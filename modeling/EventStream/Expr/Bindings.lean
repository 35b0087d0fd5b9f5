import EventStream.Expr.Value

namespace EventStream

structure Bindings where
  entries : List (String × Value)

namespace Bindings

def empty : Bindings :=
  ⟨[]⟩

def insert (b : Bindings) (name : String) (value : Value) : Bindings :=
  ⟨setEntry name value b.entries⟩

def get? (b : Bindings) (name : String) : Option Value :=
  lookup? b.entries name

def size (b : Bindings) : Nat :=
  b.entries.length

def isEmpty (b : Bindings) : Bool :=
  b.entries.isEmpty

end Bindings

end EventStream
