import Jianpu.Layout.Line
/-!
# The compiled score

* `MusicArticle` — an article cut into laid-out lines, with its columns and jumpers.
* `Article` — a music or a text article.
* `ScoreDocument` — the document's title, subtitle, prescripts, authors, footnotes, render
  settings and articles.
* `Timeline.renderLines` — the lines of a timeline: each fragment on lines of at most its
  `n` sections, each line laid out with the fragment's settings.
-/

namespace Jianpu

/-- A music article cut into laid-out lines. -/
structure MusicArticle where
  line : Nat
  title : Option String
  renderProps : RenderProps
  columns : List Column
  jumpers : List Jumper
  lines : List RenderLine
  deriving Inhabited

/-- An article of a score. -/
inductive Article where
  | music (a : MusicArticle)
  | text (a : TextArticle)
  deriving Inhabited

/-- A compiled score. -/
structure ScoreDocument where
  title : Option String
  subtitle : Option String
  prescripts : List String
  authors : List String
  footnotes : List String
  renderProps : RenderProps
  articles : List Article
  deriving Inhabited

def MusicArticle.toJson (a : MusicArticle) : Json :=
  .obj [("type", .str "music"), ("lineNumber", .nat a.line), ("title", .opt .str a.title),
    ("renderProps", a.renderProps.toJson), ("columns", .list Column.toJson a.columns),
    ("jumpers", .list Jumper.toJson a.jumpers), ("lines", .list RenderLine.toJson a.lines)]

def Article.toJson : Article → Json
  | .music a => a.toJson
  | .text a => a.toJson

def ScoreDocument.toJson (d : ScoreDocument) : Json :=
  .obj [("title", .opt .str d.title), ("subtitle", .opt .str d.subtitle),
    ("prescripts", .list .str d.prescripts), ("authors", .list .str d.authors),
    ("footnotes", .list .str d.footnotes), ("renderProps", d.renderProps.toJson),
    ("articles", .list Article.toJson d.articles)]

namespace Timeline

/-- The lines of a fragment from column `start` on, `perLine` columns a line at most; `fuel`
bounds the number of lines. -/
def fragmentLines (t : Timeline) (metrics : GlyphMetrics) (f : FragmentRange) (perLine : Nat) :
    Nat → Nat → List RenderLine
  | 0, _ => []
  | fuel + 1, start =>
    if start < f.stop then
      let stop := min (start + perLine) f.stop
      let line := t.cutLine start stop
      { line with layout := LineLayout.dispatch ⟨metrics, f.renderProps⟩ line }
        :: fragmentLines t metrics f perLine fuel stop
    else []

/-- The lines of the timeline, fragment by fragment. -/
def renderLines (t : Timeline) (metrics : GlyphMetrics) : List RenderLine :=
  t.fragments.toList.flatMap fun f =>
    let perLine := max f.renderProps.sectionsPerLine 1 |>.toNat
    t.fragmentLines metrics f perLine (f.stop - f.start) f.start

def toArticle (t : Timeline) (metrics : GlyphMetrics) : MusicArticle :=
  ⟨t.line, t.title, t.renderProps, t.columns.toList, t.jumpers.toList, t.renderLines metrics⟩

end Timeline

end Jianpu
