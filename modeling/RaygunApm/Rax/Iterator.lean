import RaygunApm.Rax.Walk

/-! # The iterator

`raxStart`, `raxSeek` with the operator `<=`, and `raxNext`. An iterator is a position in the tree
(the node and its stack of parents) with the key spelled out along the way and the data of the key.
`none` in place of an iterator is `RAX_ITER_EOF`.

`key_len` can go back to 0 while the buffer keeps its bytes, and the caller reads the first one all
the same: `key0` is that byte, on a fresh iterator whatever the memory held. -/

namespace RaygunApm

open OrderedKeys

variable {V : Type}

/-- `raxIterator`. -/
structure RaxIterator (V : Type) where
  key : Bytes
  key0 : UInt8
  data : Option V
  node : RaxNode V
  stack : List (RaxFrame V)
  justSeeked : Bool

/-! ## Moving -/

/-- `raxIteratorAddChars`. -/
def RaxIterator.addChars (it : RaxIterator V) (s : Bytes) : RaxIterator V :=
  { it with key := it.key ++ s, key0 := if it.key = [] then s.headD it.key0 else it.key0 }

/-- `raxIteratorDelChars`. -/
def RaxIterator.delChars (it : RaxIterator V) (count : Nat) : RaxIterator V :=
  { it with key := it.key.take (it.key.length - count) }

/-- Push the current node and go to its child under the characters of a link. -/
def RaxIterator.enter (it : RaxIterator V) (edge : Bytes) (child : RaxNode V) : RaxIterator V :=
  { it.addChars edge with stack := ⟨it.node, edge⟩ :: it.stack, node := child }

/-- Go back to the parent of a frame. -/
def RaxIterator.leave (it : RaxIterator V) (f : RaxFrame V) (stack : List (RaxFrame V)) :
    RaxIterator V :=
  { it with node := f.node, stack := stack }

/-- The number of characters of the key a node accounts for: `iscompr ? size : 1`. -/
def RaxNode.todel (n : RaxNode V) : Nat := if n.iscompr then n.size else 1

/-- The first child after a character. -/
def RaxChildren.next? : RaxChildren V → UInt8 → Option (UInt8 × RaxNode V)
  | .last c n, prevchild => if prevchild < c then some (c, n) else none
  | .cons c n rest, prevchild => if prevchild < c then some (c, n) else rest.next? prevchild

/-- The last child before a character. -/
def RaxChildren.prev? : RaxChildren V → UInt8 → Option (UInt8 × RaxNode V)
  | .last c n, prevchild => if c < prevchild then some (c, n) else none
  | .cons c n rest, prevchild =>
      match rest.prev? prevchild with
      | some found => some found
      | none => if c < prevchild then some (c, n) else none

/-! ## The next key -/

/-- Down the first children to the next key. A node without children is a key, so there is one. -/
def goDeeper : RaxNode V → RaxIterator V → RaxIterator V
  | .leaf _, it => it
  | .normal _ (.last c child), it =>
      let it := it.enter [c] child
      if child.value.isSome then { it with data := child.value } else goDeeper child it
  | .normal _ (.cons c child _), it =>
      let it := it.enter [c] child
      if child.value.isSome then { it with data := child.value } else goDeeper child it
  | .compressed _ data child, it =>
      let it := it.enter data child
      if child.value.isSome then { it with data := child.value } else goDeeper child it

/-- Up to the first parent with a greater child, and down to the next key there. -/
def nextUp : List (RaxFrame V) → RaxIterator V → Option (RaxIterator V)
  | [], _ => none
  | f :: stack, it =>
      let prevchild := it.key.getLastD 0
      let it := (it.leave f stack).delChars f.node.todel
      match f.node with
      | .normal _ children =>
          match if 1 < f.node.size then children.next? prevchild else none with
          | some (c, child) =>
              let it := it.enter [c] child
              if child.value.isSome then some { it with data := child.value }
              else some (goDeeper child it)
          | none => nextUp stack it
      | _ => nextUp stack it

/-- `raxIteratorNextStep`. -/
def raxIteratorNextStep (it : RaxIterator V) : Option (RaxIterator V) :=
  if it.justSeeked then some { it with justSeeked := false }
  else
    match it.node with
    | .leaf _ => nextUp it.stack it
    | node => some (goDeeper node it)

/-- `raxNext`. -/
def raxNext (it : Option (RaxIterator V)) : Option (RaxIterator V) := it.bind raxIteratorNextStep

/-! ## The previous key -/

mutual

/-- `raxSeekGreatest`: down the last children. -/
def RaxNode.seekGreatest : RaxNode V → RaxIterator V → RaxIterator V
  | .leaf _, it => it
  | .normal _ children, it => children.seekGreatest it
  | .compressed _ data child, it => child.seekGreatest (it.enter data child)

/-- Into the last child. -/
def RaxChildren.seekGreatest : RaxChildren V → RaxIterator V → RaxIterator V
  | .last c child, it => child.seekGreatest (it.enter [c] child)
  | .cons _ _ rest, it => rest.seekGreatest it

end

/-- At a node whose link has been taken: drop the characters of the link, and go to the greatest key
below the last smaller child, if there is one. -/
def prevVisit (noup : Bool) (it : RaxIterator V) : RaxIterator V :=
  let prevchild := it.key.getLastD 0
  let it := it.delChars it.node.todel
  match it.node with
  | .normal _ children =>
      match if (if noup then 0 else 1) < it.node.size then children.prev? prevchild else none with
      | some (c, child) => child.seekGreatest (it.enter [c] child)
      | none => it
  | _ => it

/-- Up to the first parent with a key before the current one. -/
def prevUp : List (RaxFrame V) → RaxIterator V → Option (RaxIterator V)
  | [], _ => none
  | f :: stack, it =>
      let it := prevVisit false (it.leave f stack)
      if it.node.value.isSome then some { it with data := it.node.value } else prevUp stack it

/-- `raxIteratorPrevStep`. -/
def raxIteratorPrevStep (it : RaxIterator V) (noup : Bool) : Option (RaxIterator V) :=
  if it.justSeeked then some { it with justSeeked := false }
  else if noup then
    let visited := prevVisit true it
    if visited.node.value.isSome then some { visited with data := visited.node.value }
    else prevUp it.stack visited
  else prevUp it.stack it

/-! ## Seeking -/

/-- `raxStart`: an iterator at the head; `garbage` is the first byte of the key buffer. -/
def raxStart (head : RaxNode V) (garbage : UInt8) : RaxIterator V :=
  ⟨[], garbage, none, head, [], false⟩

/-- The iterator at the stop node of a walk, with the key of the links. -/
def RaxWalk.seat (w : RaxWalk V) (it : RaxIterator V) : RaxIterator V :=
  { w.stack.foldr (fun f it => it.addChars f.edge) it with node := w.node, stack := w.stack }

/-- The body of `raxSeek` with `<=` after the walk, from the fresh iterator `start`. -/
def RaxWalk.seekLe (w : RaxWalk V) (ele : Bytes) (start : RaxIterator V) :
    Option (RaxIterator V) :=
  if w.matched = ele.length ∧ (¬ w.node.iscompr ∨ w.splitpos = 0) ∧ w.node.value.isSome then
    some { start.addChars ele with data := w.node.value, node := w.node, stack := w.stack }
  else if w.matched ≠ ele.length then
    let next := ele.drop w.matched
    match w.node with
    | .compressed _ data _ =>
        -- A mismatch inside a compressed node.
        if data.getD w.splitpos 0 < next.headD 0 then
          let it := w.node.seekGreatest (w.seat start)
          some { it with data := it.node.value }
        else raxIteratorPrevStep ((w.seat start).addChars data) true
    | _ => raxIteratorPrevStep ((w.seat start).addChars (next.take 1)) true
  else if w.node.iscompr ∧ w.node.value.isSome ∧ w.splitpos ≠ 0 then
    -- The string ends inside the run of a key. That key is the match, and the iterator stays.
    some (w.seat start)
  else raxIteratorPrevStep (w.seat start) false

/-- `raxSeek(it, "<=", ele, len)` on a fresh iterator. -/
def raxSeekLe (t : Rax V) (ele : Bytes) (garbage : UInt8) : Option (RaxIterator V) :=
  match t.head with
  | none => none
  | some head =>
      ((raxLowWalk head ele).seekLe ele (raxStart head garbage)).map fun it =>
        { it with justSeeked := true }

end RaygunApm
