import Jianpu.Source.CommandLine
/-!
# The line tree

The lines of a score form a tree of five levels: the document holds articles, an article
fragments, a fragment parts, a part lyric lines. A delimiter opens a new node at its level
(`=` an article, `-` a fragment); a command line goes to the node of the nearest level it
may stand at, opening the nodes below the current one that it needs and closing those above.
A unique command seen twice in one node closes that node and opens a sibling, except in the
document, where the second line is dropped with an error.

A finished node is checked before it is kept:

* an empty node is discarded, with a warning unless a child was discarded before;
* text and music commands cannot share a node, and a text node loses its children;
* a node lacking a required command of its level (`N` in a part, `L` in a lyric line) is
  discarded.

* `LineTree` — a node: its first line number, level, lines, the position of each unique
  command among them, and children.
* `LineTree.build` — the tree of a list of score lines, raising the issues above.

The builder keeps one frame per open level, bottom the document. A line pops frames while
its level is below the top one and pushes frames while it is above, then joins the top node;
a popped frame's finished nodes become children of the node below, which is opened at the
line that first went down to them when it does not exist yet.
-/

namespace Jianpu

/-- A node of the line tree. -/
structure LineTree (α : Type) where
  line : Nat
  level : Nat
  lines : List α
  uniqueLines : List (String × Nat)
  children : List (LineTree α)
  pruned : Bool
  deriving Inhabited

namespace LineTree

variable {α β : Type}

def empty (line level : Nat) : LineTree α := ⟨line, level, [], [], [], false⟩

def unique (t : LineTree α) (head : String) : Option α :=
  (t.uniqueLines.lookup head).bind (t.lines[·]?)

def isEmpty (t : LineTree α) : Bool := t.lines.isEmpty && t.children.isEmpty

def levelName (t : LineTree α) : String := Jianpu.levelName t.level

mutual
def mapLines (f : α → β) : LineTree α → LineTree β
  | ⟨line, level, lines, uniq, children, pruned⟩ =>
    ⟨line, level, lines.map f, uniq, mapForest f children, pruned⟩

def mapForest (f : α → β) : List (LineTree α) → List (LineTree β)
  | [] => []
  | t :: ts => mapLines f t :: mapForest f ts
end

mutual
/-- The same tree with each line replaced by a step of compilation, node lines before
children, depth first. -/
def mapLinesM {m : Type → Type} [Monad m] (f : α → m β) : LineTree α → m (LineTree β)
  | ⟨line, level, lines, uniq, children, pruned⟩ => do
    let lines ← lines.mapM f
    let children ← mapForestM f children
    pure ⟨line, level, lines, uniq, children, pruned⟩

/-- `mapLinesM` on each tree of a list, in order. -/
def mapForestM {m : Type → Type} [Monad m] (f : α → m β) :
    List (LineTree α) → m (List (LineTree β))
  | [] => pure []
  | t :: ts => do
    let t ← mapLinesM f t
    let ts ← mapForestM f ts
    pure (t :: ts)
end

mutual
/-- The tree as a record, with a given record for each line. -/
def toJson (f : α → Json) : LineTree α → Json
  | ⟨line, level, lines, uniq, children, _⟩ =>
    .obj [("lineNumber", .nat line), ("level", .nat level), ("lines", .list f lines),
      ("uniqueLines", .obj (uniq.map fun (k, v) => (k, .nat v))),
      ("children", .arr (forestJson f children))]

def forestJson (f : α → Json) : List (LineTree α) → List Json
  | [] => []
  | t :: ts => toJson f t :: forestJson f ts
end

/-- Keeps a finished node or discards it, raising what is wrong with it. -/
def check (t : LineTree CommandLine) : Compiling (Option (LineTree CommandLine)) := do
  if t.level == 0 then return some t
  let name := t.levelName
  if t.isEmpty then
    if !t.pruned then warn t.line 0 (.emptyTree name)
    return none
  let has (s : Speciality) := t.lines.any fun l => l.command.speciality == s
  let special := has .special
  if special && has .normal then
    error t.line 0 (.wrongSpeciality name)
    return none
  let t ← if special && !t.children.isEmpty then do
      warn t.line 0 (.specialChildren name)
      pure { t with children := [] }
    else pure t
  for c in Command.all do
    if c.required && c.levels.contains t.level && (t.uniqueLines.lookup c.head).isNone then
      error t.line 0 (.lackRequired c.head name)
      return none
  return some t

/-- One open level while building: the node being filled, the finished nodes, whether one was
discarded, and the line that opened the level, which names the node below it if needed. -/
structure Frame where
  level : Nat
  opener : Nat
  current : Option (LineTree CommandLine)
  done : List (LineTree CommandLine)
  pruned : Bool

namespace Frame

/-- Checks the node being filled and files it as finished or discarded. -/
def finish (f : Frame) : Compiling Frame := do
  match f.current with
  | none => pure f
  | some t =>
    match ← check t with
    | some t => pure { f with current := none, done := f.done ++ [t] }
    | none => pure { f with current := none, pruned := true }

def ensure (f : Frame) (line : Nat) : LineTree CommandLine :=
  f.current.getD (empty line f.level)

/-- Adds a command line to the node being filled. -/
def accept (f : Frame) (c : CommandLine) : Compiling Frame := do
  let cmd := c.command
  if cmd.propsPolicy == .none && c.props.isSome then warn c.line 0 (.redundantProps cmd.head)
  if cmd.propsPolicy == .required && c.props.isNone then warn c.line 0 (.lackProps cmd.head)
  let clash := match f.current with
    | some t => cmd.unique && (t.uniqueLines.lookup cmd.head).isSome
    | none => false
  let f ← if clash then
      if f.level == 0 then do
        error c.line 0 (.duplicateUnique cmd.head)
        return f
      else f.finish
    else pure f
  let t := f.ensure c.line
  let t := if cmd.unique then { t with uniqueLines := t.uniqueLines ++ [(cmd.head, t.lines.length)] }
    else t
  pure { f with current := some { t with lines := t.lines ++ [c] } }

end Frame

/-- Closes the top frame into the one below while the top level is above `goal`. -/
def popTo (goal : Nat) : List Frame → Compiling (List Frame)
  | top :: below :: rest =>
    if top.level > goal then do
      let top ← top.finish
      let t := below.ensure top.opener
      let below := { below with current := some { t with
        children := t.children ++ top.done, pruned := t.pruned || top.pruned } }
      popTo goal (below :: rest)
    else pure (top :: below :: rest)
  | stack => pure stack
termination_by stack => stack.length

/-- Opens `n` levels above the top one, each opened by line `line`. -/
def pushLevels (line : Nat) : Nat → List Frame → List Frame
  | 0, stack => stack
  | n + 1, stack =>
    let level := match stack with
      | top :: _ => top.level + 1
      | [] => 0
    pushLevels line n (⟨level, line, none, [], false⟩ :: stack)

/-- Brings the top of the stack to level `goal`, closing or opening levels. -/
def moveTo (goal line : Nat) (stack : List Frame) : Compiling (List Frame) := do
  let stack ← popTo goal stack
  let top := match stack with
    | top :: _ => top.level
    | [] => 0
  pure (pushLevels line (goal - top) stack)

/-- Places one score line. -/
def place (stack : List Frame) : ScoreLine → Compiling (List Frame)
  | .delimiter line level => do
    match ← moveTo level line stack with
    | top :: rest => do
      let top ← top.finish
      pure ({ top with current := some (empty line level) } :: rest)
    | [] => pure []
  | .command c => do
    let top := match stack with
      | top :: _ => top.level
      | [] => 0
    match ← moveTo (c.command.nearestLevel top) c.line stack with
    | top :: rest => pure ((← top.accept c) :: rest)
    | [] => pure []

/-- The line tree of a list of score lines: the document node, or an empty one at line 0
when nothing was placed in it. -/
def build (lines : List ScoreLine) : Compiling (LineTree CommandLine) := do
  let stack ← lines.foldlM place [⟨0, 0, none, [], false⟩]
  let stack ← popTo 0 stack
  match stack with
  | bottom :: _ =>
    let bottom ← bottom.finish
    pure (bottom.done.getLast?.getD (empty 0 0))
  | [] => pure (empty 0 0)

end LineTree

end Jianpu
