import Jianpu.Settings
import Jianpu.Score.Places
import Jianpu.Content.TypedTree
/-!
# Compiling a score

A score text is compiled in one pass through its stages, each adding the issues it finds:

1. its lines are classified, arranged in the document's tree and read by command;
2. each article is either text (it has a `T` line) or music, which is laid on the time axis:
   its voices in columns, ties and slurs linked, lyrics placed on notes;
3. each music article is performed, which marks the sections played twice on one pass;
4. the articles are cut into laid-out lines, and the drawn sections' places are noted.

Render settings stand in three layers: the host's, the document's `Rp` over them, and an
article's or fragment's own over those.

* `readTree` — the first stage: the text's lines classified, arranged and read.
* `Compilation` — the document, each article's performance, the issues and section places.
* `Compilation.ofText` — compiles a text with settings.
-/

namespace Jianpu

/-- A compiled score: the document, the performance of each music article (none for text),
the issues raised in order, and where the written sections were drawn. -/
structure Compilation where
  document : ScoreDocument
  performances : List (Option Performance)
  issues : Array Issue
  places : SectionPlaces
  deriving Inhabited

/-- An article on its way: text, or a music article on the time axis. -/
inductive Laid where
  | music (t : Timeline)
  | text (a : TextArticle)

/-- Lays an article on the time axis, or keeps it as text when it has a `T` line. -/
def layArticle (docProps : RenderProps) (article : LineTree TypedLine) : Compiling Laid := do
  if article.lines.any (·.command == .text) then
    pure (.text ⟨article.line, article.textOf "S", article.textsOf .text⟩)
  else
    let t ← Timeline.ofArticle docProps article
    let t ← t.allocate.interlink
    pure (.music (← t.placeVerses))

/-- Performs a laid article; a text article has no performance. -/
def performArticle (pf : Performer) : Laid → Compiling (Laid × Option Performance)
  | .music t => do
    let (p, t) ← pf.perform t
    pure (.music t, some p)
  | .text a => pure (.text a, none)

def readTree (text : String) : Compiling (LineTree TypedLine) := do
  (← LineTree.build (← ScoreLine.classify text)).typed

/-- The document and performances of a score text. -/
def compileScore (s : Settings) (text : String) :
    Compiling (ScoreDocument × List (Option Performance)) := do
  let tree ← readTree text
  let docProps := s.render.overlay tree.renderPropsOf
  let laid ← tree.children.mapM (layArticle docProps)
  let performed ← laid.mapM (performArticle ⟨s.iterationLimit, s.defaultQpm⟩)
  let articles := performed.map fun
    | (.music t, _) => Article.music (t.toArticle s.metrics)
    | (.text a, _) => Article.text a
  let doc : ScoreDocument := ⟨tree.textOf "Dt", tree.textOf "Ds", tree.textsOf .prescript,
    tree.textsOf .author, tree.textsOf .footnote, docProps, articles⟩
  pure (doc, performed.map (·.2))

def Compilation.ofText (s : Settings) (text : String) : Compilation :=
  let ((doc, performances), journal) := (compileScore s text).run {}
  ⟨doc, performances, journal.issues, SectionPlaces.ofDocument doc⟩

namespace Compilation

def sequencedJson (c : Compilation) : Json :=
  .obj [("score", .opt .str c.document.title),
    ("sequence", .list (.opt Performance.toJson) c.performances)]

/-- The full record: the document, the performances under the document's title, the issues,
the section places, and each performance's length and notes heard. -/
def toJson (c : Compilation) : Json :=
  .obj [("result", c.document.toJson),
    ("sequenced", c.sequencedJson),
    ("issues", .list Issue.toJson c.issues.toList),
    ("sectionPositions", c.places.toJson),
    ("performed", .list (.opt fun p => .obj [("totalMillis", .num p.totalMillis),
      ("notes", .list SoundingNote.toJson p.notes.toList)]) c.performances)]

def hasFatal (c : Compilation) : Bool :=
  c.issues.any fun i => i.severity == .fatal

def alarming (c : Compilation) : List Issue :=
  c.issues.toList.filter fun i => i.severity.rank ≥ Severity.warning.rank

/-- A short record for large scores: the issues, each performance's passes by section
index with its length and number of notes, and each music article's columns and the column
ranges of its lines. -/
def summaryJson (c : Compilation) : Json :=
  .obj [("issues", .list Issue.toJson c.issues.toList),
    ("sequence", .list (.opt fun p => .obj [("overflow", .bool p.overflow),
      ("conflict", .bool p.conflict), ("conflictedSections", .list .nat p.conflictedSections),
      ("iterations", .list (fun (pass : Pass) => .obj [("number", .nat pass.number),
        ("sections", .list (fun (s : PlayedSection) => .nat s.index) pass.sections.toList)])
        p.passes.toList),
      ("totalMillis", .num p.totalMillis), ("noteCount", .nat p.notes.size)]) c.performances),
    ("articles", .list (fun a => match a with
      | .music m => .obj [("columns", .list Column.toJson m.columns),
          ("lines", .list (fun (l : RenderLine) => .list .nat [l.start, l.stop]) m.lines)]
      | .text _ => .null) c.document.articles)]

end Compilation

end Jianpu
