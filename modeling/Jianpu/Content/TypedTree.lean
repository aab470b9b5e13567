import Jianpu.Content.TypedLine
import Jianpu.LineTree
/-!
# The tree with its meaning

Every line of the line tree is read for what it holds, under the musical context that
holds where it stands. The context is resolved while walking down the tree:

* the document's context is the default one with its `Sp` line put over it;
* an article puts its `P` line over it;
* the fragments of an article follow one another: each starts from the context the one
  before it closed with, puts its own `P` over it and hands on what the barlines of its
  parts changed (of the last part whose barlines changed anything);
* a part puts its `Pi` over it; its `N` row is read first and may change the context at its
  barlines, and the chord, annotation and force rows of the part follow the `N` row section
  by section;
* a lyric line reads its `Ln` row under its part's context.

So each section carries the properties it is played with.

* `LineTree.typed` — the tree of command lines with each line read.
-/

namespace Jianpu

namespace LineTree

/-- The properties that a node's unique properties line with the given head sets; its
issues are raised where the line itself is read. -/
def patchOf (t : LineTree GroupedLine) (head : String) : MusicPatch :=
  match t.unique head with
  | some g => (g.musicPatch.run {}).1
  | none => {}

def withLines {α β : Type} (t : LineTree α) (lines : List β) (children : List (LineTree β)) :
    LineTree β :=
  ⟨t.line, t.level, lines, t.uniqueLines, children, t.pruned⟩

def plainLines (t : LineTree GroupedLine) : Compiling (List TypedLine) :=
  t.lines.mapM fun g => g.typed <$> g.readPlain

/-- A lyric line, its `Ln` rows read under the part's context. -/
def typedVerse (ctx : MusicProps) (t : LineTree GroupedLine) : Compiling (LineTree TypedLine) := do
  let lines ← t.lines.mapM fun g => match g.command with
    | .lyricNotes => (g.typed ∘ .notes) <$> g.noteRow (.running ctx)
    | _ => g.typed <$> g.readPlain
  pure (t.withLines lines [])

/-- A part and what the barlines of its `N` row changed. -/
def typedPart (fragCtx : MusicProps) (t : LineTree GroupedLine) :
    Compiling (LineTree TypedLine × MusicPatch) := do
  let ctx := fragCtx.apply (patchOf t "Pi")
  let index := t.uniqueLines.lookup "N"
  let notes ← match index.bind (t.lines[·]?) with
    | some g => some <$> g.noteRow (α := Pitch) (.running ctx)
    | none => pure none
  let track := (notes.map (·.sections.map (·.props))).getD []
  let variation := (notes.map (·.variation)).getD {}
  let lines ← t.lines.zipIdx.mapM fun (g, i) => match g.command with
    | .notes =>
      if index == some i then
        match notes with
        | some r => pure (g.typed (.notes r))
        | none => (g.typed ∘ .notes) <$> g.noteRow (.running ctx)
      else g.typed <$> g.readPlain
    | .chords => (g.typed ∘ .chords) <$> g.noteRow (.track track ctx)
    | .annotations => (g.typed ∘ .annotations) <$> g.noteRow (.track track ctx)
    | .force => (g.typed ∘ .force) <$> g.noteRow (.track track ctx)
    | _ => g.typed <$> g.readPlain
  let children ← t.children.mapM (typedVerse ctx)
  pure (t.withLines lines children, variation)

/-- A fragment and the context the next fragment starts from. -/
def typedFragment (ctx : MusicProps) (t : LineTree GroupedLine) :
    Compiling (LineTree TypedLine × MusicProps) := do
  let fragCtx := ctx.apply (patchOf t "P")
  let lines ← plainLines t
  let step := fun ((out, v) : List (LineTree TypedLine) × MusicPatch) part => do
    let (p, pv) ← typedPart fragCtx part
    pure (out ++ [p], if pv.isEmpty then v else pv)
  let (children, variation) ← t.children.foldlM step ([], {})
  pure (t.withLines lines children, fragCtx.apply variation)

/-- An article, its fragments read in turn. -/
def typedArticle (docCtx : MusicProps) (t : LineTree GroupedLine) :
    Compiling (LineTree TypedLine) := do
  let ctx := docCtx.apply (patchOf t "P")
  let lines ← plainLines t
  let step := fun ((out, ctx) : List (LineTree TypedLine) × MusicProps) frag => do
    let (f, next) ← typedFragment ctx frag
    pure (out ++ [f], next)
  let (children, _) ← t.children.foldlM step ([], ctx)
  pure (t.withLines lines children)

/-- The document with every line read: first every line's brackets, then the lines by
node, each node's lines before its children. -/
def typed (t : LineTree CommandLine) : Compiling (LineTree TypedLine) := do
  let t ← t.mapLinesM GroupedLine.ofCommandLine
  let ctx := ({} : MusicProps).apply (patchOf t "Sp")
  let lines ← plainLines t
  let children ← t.children.mapM (typedArticle ctx)
  pure (t.withLines lines children)

end LineTree

end Jianpu
