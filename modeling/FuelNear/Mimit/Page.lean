/-
# The page of national averages, event by event

`_PageParser` reads a page as a sequence of start tags, end tags and data. It
collects headings, paragraphs and tables as blocks; a start tag of one of them
drops a heading or a paragraph that is still open, and inside a table only
rows and cells count.

What a page has is said without the parser: a heading or a paragraph is closed
at a place if its start tag stands there, outside tables, with its end tag
before any other start tag of a heading, a paragraph or a table (`ClosedAt`);
a table starts at a place if its start tag stands there, outside tables
(`TableAt`), and it is well formed if its tags are those of rows of cells
(`IsTable`). Whatever the page, the blocks are the closed headings and
paragraphs and the tables, in their order, and a table that is not marked as
invalid is well formed (`Blocks`): every event keeps `Inv`.

Key definitions: `PageParser`, `ClosedAt`, `TableAt`, `IsTable`, `Blocks`, `Inv`.
Key theorems: `closedAt_snoc`, `openAt_snoc`, `inv_handle`, `blocks_of_page`.
-/
import FuelNear.Mimit.Averages
import FuelNear.Text

namespace FuelNear
namespace Averages

/-! ### The parser -/

/-- What `HTMLParser` calls the handlers with. -/
inductive Event where
  | startTag (tag : String) (attrs : List (String × Option String))
  | endTag (tag : String)
  | data (text : String)
  deriving DecidableEq

inductive Block where
  | text (tag value : String)
  | table (rows : List (List String)) (invalid : Bool)
  deriving DecidableEq

/-- `_PageParser`. -/
structure PageParser where
  blocks : List Block
  capture : Option String
  text : List String
  rows : Option (List (List String))
  row : Option (List String)
  cell : Option String
  invalid : Bool
  tableDepth : ℕ

/-- `__init__`. -/
def PageParser.new : PageParser := ⟨[], none, [], none, none, none, false, 0⟩

/-- `" ".join("".join(text).split())`. -/
def squeeze (text : List String) : String := String.intercalate " " (Text.words (String.join text))

def isHeading (tag : String) : Bool := ["h1", "h2", "h3", "h4", "h5", "h6"].contains tag

def isCaptured (tag : String) : Bool := isHeading tag || tag = "p"

def isCell (tag : String) : Bool := tag = "td" || tag = "th"

/-- `any(k in {"rowspan", "colspan"} and v != "1" for k, v in attrs)`. -/
def spans (attrs : List (String × Option String)) : Bool :=
  attrs.any fun a => (a.1 = "rowspan" || a.1 = "colspan") && a.2 ≠ some "1"

def PageParser.handleStarttag (s : PageParser) (tag : String) (attrs : List (String × Option String)) : PageParser :=
  if tag = "table" then
    if s.rows.isSome then { s with tableDepth := s.tableDepth + 1, invalid := true }
    else
      { s with
        tableDepth := s.tableDepth + 1
        invalid := false
        rows := some []
        row := none
        cell := none
        capture := none }
  else if 1 < s.tableDepth then s
  else if s.rows.isSome then
    if tag = "tr" then { s with invalid := s.invalid || s.row.isSome, row := some [] }
    else if isCell tag then
      { s with
        invalid := s.invalid || s.cell.isSome || s.row.isNone || spans attrs
        cell := some tag
        text := [] }
    else s
  else if isCaptured tag then { s with capture := some tag, text := [] }
  else s

def PageParser.handleData (s : PageParser) (data : String) : PageParser :=
  if s.capture.isSome || s.cell.isSome then { s with text := s.text ++ [data] } else s

def PageParser.handleEndtag (s : PageParser) (tag : String) : PageParser :=
  if 1 < s.tableDepth then
    if tag = "table" then { s with tableDepth := s.tableDepth - 1 } else s
  else
    match s.rows with
    | some rows =>
      if isCell tag then
        match s.row with
        | some row =>
          if s.cell = some tag then { s with row := some (row ++ [squeeze s.text]), cell := none }
          else { s with invalid := true, cell := none }
        | none => { s with invalid := true, cell := none }
      else if tag = "tr" then
        match s.row with
        | some row =>
          if s.cell.isSome then { s with invalid := true, row := none }
          else { s with rows := some (rows ++ [row]), row := none }
        | none => { s with invalid := true }
      else if tag = "table" then
        { s with
          invalid := s.invalid || s.row.isSome || s.cell.isSome
          blocks := s.blocks ++ [.table rows (s.invalid || s.row.isSome || s.cell.isSome)]
          rows := none
          tableDepth := 0 }
      else s
    | none =>
      if s.capture = some tag then { s with blocks := s.blocks ++ [.text tag (squeeze s.text)], capture := none }
      else s

def PageParser.handle (s : PageParser) : Event → PageParser
  | .startTag tag attrs => s.handleStarttag tag attrs
  | .endTag tag => s.handleEndtag tag
  | .data text => s.handleData text

/-- `feed` and `close`. -/
def PageParser.feed (page : List Event) : PageParser := page.foldl PageParser.handle .new

/-! ### What a page has -/

/-- The number of tables that are open after the events. -/
def depthAfter (n : ℕ) : Event → ℕ
  | .startTag tag _ => if tag = "table" then n + 1 else n
  | .endTag tag => if tag = "table" then n - 1 else n
  | .data _ => n

def depth (page : List Event) : ℕ := page.foldl depthAfter 0

/-- A start tag of a heading, a paragraph or a table. -/
def Event.opens : Event → Bool
  | .startTag tag _ => isCaptured tag || tag = "table"
  | _ => false

/-- A tag of a table, a row or a cell. -/
def Event.structural : Event → Bool
  | .startTag tag _ => tag = "table" || tag = "tr" || isCell tag
  | .endTag tag => tag = "table" || tag = "tr" || isCell tag
  | .data _ => false

def Event.text? : Event → Option String
  | .data text => some text
  | _ => none

def texts (l : List Event) : List String := l.filterMap Event.text?

/-- Neither the end tag nor a start tag that drops what is open. -/
def Quiet (tag : String) (body : List Event) : Prop := ∀ e ∈ body, e.opens = false ∧ e ≠ .endTag tag

/-- At `i`, outside tables, is a start tag of a heading or a paragraph that is still open. -/
structure OpenAt (page : List Event) (i : ℕ) (tag : String) (body : List Event) : Prop where
  here : ∃ before attrs, page = before ++ .startTag tag attrs :: body ∧ before.length = i ∧ depth before = 0
  captured : isCaptured tag = true
  quiet : Quiet tag body

/-- At `i`, outside tables, is a start tag of a heading or a paragraph that is
matched by its end tag. -/
def ClosedAt (page : List Event) (i : ℕ) (tag value : String) : Prop :=
  ∃ before attrs body rest, page = before ++ .startTag tag attrs :: (body ++ .endTag tag :: rest) ∧
    before.length = i ∧ depth before = 0 ∧ isCaptured tag = true ∧ Quiet tag body ∧ value = squeeze (texts body)

/-- At `i`, outside tables, is the start tag of a table, and `inner` follows. -/
def TableFrom (page : List Event) (i : ℕ) (inner : List Event) : Prop :=
  ∃ before attrs, page = before ++ .startTag "table" attrs :: inner ∧ before.length = i ∧ depth before = 0

def TableAt (page : List Event) (i : ℕ) : Prop := ∃ inner, TableFrom page i inner

/-- No tag of a table, a row or a cell. -/
def Filler (l : List Event) : Prop := ∀ e ∈ l, e.structural = false

/-- The cells of a row, none of them spanning, each with its end tag. -/
inductive IsCells : List Event → List String → Prop
  | nil {f : List Event} (filler : Filler f) : IsCells f []
  | snoc {cells body f : List Event} {values : List String} {tag : String} {attrs : List (String × Option String)}
      (before : IsCells cells values) (cell : isCell tag = true) (single : spans attrs = false) (inner : Filler body)
      (filler : Filler f) :
      IsCells (cells ++ .startTag tag attrs :: (body ++ .endTag tag :: f)) (values ++ [squeeze (texts body)])

/-- The rows of a table, each with its end tag. -/
inductive IsRows : List Event → List (List String) → Prop
  | nil {f : List Event} (filler : Filler f) : IsRows f []
  | snoc {events cells f : List Event} {rows : List (List String)} {values : List String}
      (attrs : List (String × Option String)) (before : IsRows events rows) (row : IsCells cells values)
      (filler : Filler f) : IsRows (events ++ .startTag "tr" attrs :: (cells ++ .endTag "tr" :: f)) (rows ++ [values])

/-- At `i`, outside tables, is a table of these rows, with its end tag. There is
no table in it. -/
def IsTable (page : List Event) (i : ℕ) (rows : List (List String)) : Prop :=
  ∃ before attrs inner rest, page = before ++ .startTag "table" attrs :: (inner ++ .endTag "table" :: rest) ∧
    before.length = i ∧ depth before = 0 ∧ IsRows inner rows

/-! ### One event more -/

variable {page body inner : List Event} {e : Event} {i : ℕ} {tag value : String}

theorem snoc_eq_append_cons {before rest : List Event} {x : Event} : page ++ [e] = before ++ x :: rest ↔
    (rest = [] ∧ before = page ∧ x = e) ∨ ∃ r, rest = r ++ [e] ∧ page = before ++ x :: r := by
  constructor
  · intro h
    rcases List.eq_nil_or_concat' rest with rfl | ⟨r, y, rfl⟩
    · obtain ⟨hpage, he⟩ := List.append_inj' h rfl
      exact Or.inl ⟨rfl, hpage.symm, (List.cons.inj he).1.symm⟩
    · have h' : page ++ [e] = (before ++ x :: r) ++ [y] := by rw [h]; simp
      obtain ⟨hpage, he⟩ := List.append_inj' h' rfl
      exact Or.inr ⟨r, by rw [(List.cons.inj he).1], hpage⟩
  · rintro (⟨rfl, rfl, rfl⟩ | ⟨r, rfl, rfl⟩)
    · rfl
    · simp

theorem depth_snoc (page : List Event) (e : Event) : depth (page ++ [e]) = depthAfter (depth page) e := by
  unfold depth
  rw [List.foldl_append]
  rfl

theorem depthAfter_of_not_opens (h : e.opens = false) : depthAfter 0 e = 0 := by
  cases e with
  | startTag tag attrs =>
    simp only [Event.opens, Bool.or_eq_false_iff, decide_eq_false_iff_not] at h
    exact if_neg h.2
  | endTag tag => exact ite_self 0
  | data text => rfl

theorem foldl_depth_quiet : ∀ {l : List Event}, (∀ e ∈ l, e.opens = false) → l.foldl depthAfter 0 = 0
  | [], _ => rfl
  | x :: l, h => by
    rw [List.foldl_cons, depthAfter_of_not_opens (h x List.mem_cons_self)]
    exact foldl_depth_quiet fun y hy => h y (List.mem_cons_of_mem x hy)

theorem not_captured_table : isCaptured "table" = false := by decide

/-- What is open is outside tables. -/
theorem OpenAt.depth_eq (h : OpenAt page i tag body) : depth page = 0 := by
  obtain ⟨before, attrs, rfl, -, hdepth⟩ := h.here
  have htag : tag ≠ "table" := by
    rintro rfl
    exact absurd h.captured (by rw [not_captured_table]; simp)
  unfold depth at hdepth ⊢
  rw [List.foldl_append, List.foldl_cons, hdepth, show depthAfter 0 (.startTag tag attrs) = 0 from if_neg htag]
  exact foldl_depth_quiet fun x hx => (h.quiet x hx).1

theorem openAt_snoc : OpenAt (page ++ [e]) i tag body ↔
    (body = [] ∧ i = page.length ∧ depth page = 0 ∧ isCaptured tag = true ∧ ∃ attrs, e = .startTag tag attrs) ∨
    ∃ b, body = b ++ [e] ∧ OpenAt page i tag b ∧ e.opens = false ∧ e ≠ .endTag tag := by
  constructor
  · rintro ⟨⟨before, attrs, hpage, rfl, hdepth⟩, hcaptured, hquiet⟩
    rcases snoc_eq_append_cons.mp hpage with ⟨rfl, rfl, rfl⟩ | ⟨b, rfl, rfl⟩
    · exact Or.inl ⟨rfl, rfl, hdepth, hcaptured, attrs, rfl⟩
    · refine Or.inr ⟨b, rfl, ⟨⟨before, attrs, rfl, rfl, hdepth⟩, hcaptured, fun x hx => ?_⟩, ?_⟩
      · exact hquiet x (List.mem_append_left _ hx)
      · exact hquiet e (List.mem_append_right _ (List.mem_singleton_self e))
  · rintro (⟨rfl, rfl, hdepth, hcaptured, attrs, rfl⟩ |
      ⟨b, rfl, ⟨⟨before, attrs, rfl, rfl, hdepth⟩, hcaptured, hquiet⟩, he⟩)
    · exact ⟨⟨page, attrs, rfl, rfl, hdepth⟩, hcaptured, fun x hx => absurd hx List.not_mem_nil⟩
    · refine ⟨⟨before, attrs, by simp, rfl, hdepth⟩, hcaptured, fun x hx => ?_⟩
      rcases List.mem_append.mp hx with hx | hx
      · exact hquiet x hx
      · rw [List.mem_singleton.mp hx]
        exact he

theorem closedAt_snoc : ClosedAt (page ++ [e]) i tag value ↔ ClosedAt page i tag value ∨
    ∃ b, OpenAt page i tag b ∧ e = .endTag tag ∧ value = squeeze (texts b) := by
  constructor
  · rintro ⟨before, attrs, b, rest, hpage, rfl, hdepth, hcaptured, hquiet, rfl⟩
    have hpage' : page ++ [e] = (before ++ .startTag tag attrs :: b) ++ .endTag tag :: rest := by rw [hpage]; simp
    rcases snoc_eq_append_cons.mp hpage' with ⟨rfl, rfl, rfl⟩ | ⟨r, rfl, rfl⟩
    · exact Or.inr ⟨b, ⟨⟨before, attrs, rfl, rfl, hdepth⟩, hcaptured, hquiet⟩, rfl, rfl⟩
    · exact Or.inl ⟨before, attrs, b, r, by simp, rfl, hdepth, hcaptured, hquiet, rfl⟩
  · rintro (⟨before, attrs, b, rest, rfl, rfl, hdepth, hcaptured, hquiet, rfl⟩ |
      ⟨b, ⟨⟨before, attrs, rfl, rfl, hdepth⟩, hcaptured, hquiet⟩, rfl, rfl⟩)
    · exact ⟨before, attrs, b, rest ++ [e], by simp, rfl, hdepth, hcaptured, hquiet, rfl⟩
    · exact ⟨before, attrs, b, [], by simp, rfl, hdepth, hcaptured, hquiet, rfl⟩

theorem tableFrom_snoc : TableFrom (page ++ [e]) i inner ↔
    (inner = [] ∧ i = page.length ∧ depth page = 0 ∧ ∃ attrs, e = .startTag "table" attrs) ∨
    ∃ r, inner = r ++ [e] ∧ TableFrom page i r := by
  constructor
  · rintro ⟨before, attrs, hpage, rfl, hdepth⟩
    rcases snoc_eq_append_cons.mp hpage with ⟨rfl, rfl, rfl⟩ | ⟨r, rfl, rfl⟩
    · exact Or.inl ⟨rfl, rfl, hdepth, attrs, rfl⟩
    · exact Or.inr ⟨r, rfl, before, attrs, rfl, rfl, hdepth⟩
  · rintro (⟨rfl, rfl, hdepth, attrs, rfl⟩ | ⟨r, rfl, before, attrs, rfl, rfl, hdepth⟩)
    · exact ⟨page, attrs, rfl, rfl, hdepth⟩
    · exact ⟨before, attrs, by simp, rfl, hdepth⟩

theorem tableAt_snoc : TableAt (page ++ [e]) i ↔
    TableAt page i ∨ (i = page.length ∧ depth page = 0 ∧ ∃ attrs, e = .startTag "table" attrs) := by
  unfold TableAt
  constructor
  · rintro ⟨inner, h⟩
    rcases tableFrom_snoc.mp h with ⟨-, h⟩ | ⟨r, -, h⟩
    · exact Or.inr h
    · exact Or.inl ⟨r, h⟩
  · rintro (⟨r, h⟩ | h)
    · exact ⟨r ++ [e], tableFrom_snoc.mpr (Or.inr ⟨r, rfl, h⟩)⟩
    · exact ⟨[], tableFrom_snoc.mpr (Or.inl ⟨rfl, h⟩)⟩

/-- Only the start tag of a table adds one. -/
theorem tableAt_snoc_of_ne (he : ∀ attrs, e ≠ .startTag "table" attrs) : TableAt (page ++ [e]) i ↔ TableAt page i := by
  rw [tableAt_snoc, or_iff_left]
  rintro ⟨-, -, attrs, h⟩
  exact he attrs h

theorem IsTable.snoc {rows : List (List String)} (h : IsTable page i rows) (e : Event) :
    IsTable (page ++ [e]) i rows := by
  obtain ⟨before, attrs, inner, rest, rfl, hi, hdepth, hrows⟩ := h
  exact ⟨before, attrs, inner, rest ++ [e], by simp, hi, hdepth, hrows⟩

/-- Only one start tag is open. -/
theorem OpenAt.unique {j : ℕ} {other : String} {b : List Event} (h : OpenAt page i tag body)
    (h' : OpenAt page j other b) : i = j ∧ tag = other ∧ body = b := by
  induction page using List.reverseRecOn generalizing body b with
  | nil =>
    obtain ⟨before, attrs, hnil, -⟩ := h.here
    exact absurd hnil.symm (by simp)
  | append_singleton page e ih =>
    rcases openAt_snoc.mp h with ⟨rfl, rfl, -, hc, attrs, rfl⟩ | ⟨c, rfl, hopen, hquiet, -⟩ <;>
      rcases openAt_snoc.mp h' with ⟨rfl, rfl, -, hc', attrs', he'⟩ | ⟨c', rfl, hopen', hquiet', -⟩
    · exact ⟨rfl, (Event.startTag.inj he').1, rfl⟩
    · simp [Event.opens, hc] at hquiet'
    · subst he'
      simp [Event.opens, hc'] at hquiet
    · obtain ⟨hi, htag, rfl⟩ := ih hopen hopen'
      exact ⟨hi, htag, rfl⟩

/-! ### Inside a table -/

/-- The events of a table that is not finished, and what the parser has of it:
between two rows, in a row between two cells, or in a cell. -/
inductive InTable : List Event → List (List String) → Option (List String) → Option String → List String → Prop
  | between {events : List Event} {rows : List (List String)} (text : List String) (before : IsRows events rows) :
      InTable events rows none none text
  | inRow {events cells : List Event} {rows : List (List String)} {values : List String} (text : List String)
      (attrs : List (String × Option String)) (before : IsRows events rows) (row : IsCells cells values) :
      InTable (events ++ .startTag "tr" attrs :: cells) rows (some values) none text
  | inCell {events cells body : List Event} {rows : List (List String)} {values : List String} {tag : String}
      {cellAttrs : List (String × Option String)} (attrs : List (String × Option String))
      (before : IsRows events rows) (row : IsCells cells values)
      (cell : isCell tag = true) (single : spans cellAttrs = false) (inner : Filler body) :
      InTable (events ++ .startTag "tr" attrs :: (cells ++ .startTag tag cellAttrs :: body)) rows (some values)
        (some tag) (texts body)

variable {events cells : List Event} {rows : List (List String)} {row : Option (List String)}
  {values text : List String} {cell : Option String} {attrs : List (String × Option String)}

theorem Filler.snoc (h : Filler body) (he : e.structural = false) : Filler (body ++ [e]) := by
  intro x hx
  rcases List.mem_append.mp hx with hx | hx
  · exact h x hx
  · rw [List.mem_singleton.mp hx]
    exact he

theorem filler_nil : Filler [] := fun _ h => absurd h List.not_mem_nil

theorem IsCells.filler (h : IsCells cells values) (he : e.structural = false) : IsCells (cells ++ [e]) values := by
  cases h with
  | nil filler => exact .nil (filler.snoc he)
  | snoc before cell single inner filler =>
    have hnext := IsCells.snoc before cell single inner (filler.snoc he)
    simpa using hnext

theorem IsRows.filler (h : IsRows events rows) (he : e.structural = false) : IsRows (events ++ [e]) rows := by
  cases h with
  | nil filler => exact .nil (filler.snoc he)
  | snoc attrs before row filler =>
    have hnext := IsRows.snoc attrs before row (filler.snoc he)
    simpa using hnext

/-- A tag that has nothing to do with tables. -/
theorem InTable.filler (h : InTable events rows row cell text) (he : e.structural = false) (hdata : e.text? = none) :
    InTable (events ++ [e]) rows row cell text := by
  cases h with
  | between text before => exact .between text (before.filler he)
  | inRow text attrs before row =>
    have hnext := InTable.inRow text attrs before (row.filler he)
    simpa using hnext
  | @inCell events cells body rows values tag cellAttrs attrs before row cell single inner =>
    have hnext := InTable.inCell attrs before row cell single (inner.snoc he)
    have htexts : texts (body ++ [e]) = texts body := by simp [texts, hdata]
    rw [htexts] at hnext
    simpa using hnext

theorem InTable.data (h : InTable events rows row cell text) (t : String) :
    InTable (events ++ [.data t]) rows row cell (if cell.isSome then text ++ [t] else text) := by
  have he : (Event.data t).structural = false := rfl
  cases h with
  | between text before => exact .between text (before.filler he)
  | inRow text attrs before row =>
    have hnext := InTable.inRow text attrs before (row.filler he)
    simpa using hnext
  | @inCell events cells body rows values tag cellAttrs attrs before row cell single inner =>
    have hnext := InTable.inCell attrs before row cell single (inner.snoc he)
    have htexts : texts (body ++ [.data t]) = texts body ++ [t] := by simp [texts, Event.text?]
    rw [htexts] at hnext
    simpa using hnext

theorem InTable.startRow (h : InTable events rows none cell text) (attrs : List (String × Option String)) :
    InTable (events ++ [.startTag "tr" attrs]) rows (some []) cell text := by
  cases h with
  | between text before => exact .inRow text attrs before (.nil filler_nil)

theorem InTable.startCell (h : InTable events rows (some values) none text) (htag : isCell tag = true)
    (hsingle : spans attrs = false) :
    InTable (events ++ [.startTag tag attrs]) rows (some values) (some tag) [] := by
  cases h with
  | inRow text rowAttrs before row =>
    have hnext := InTable.inCell rowAttrs before row htag hsingle filler_nil
    simpa [texts] using hnext

theorem InTable.endCell (h : InTable events rows (some values) (some tag) text) :
    InTable (events ++ [.endTag tag]) rows (some (values ++ [squeeze text])) none text := by
  cases h with
  | @inCell events cells body rows values tag cellAttrs rowAttrs before row cell single inner =>
    have hnext := InTable.inRow (texts body) rowAttrs before (.snoc row cell single inner filler_nil)
    simpa using hnext

theorem InTable.endRow (h : InTable events rows (some values) none text) :
    InTable (events ++ [.endTag "tr"]) (rows ++ [values]) none none text := by
  cases h with
  | inRow text attrs before row =>
    have hnext := InTable.between text (.snoc attrs before row filler_nil)
    simpa using hnext

theorem InTable.finished (h : InTable events rows none none text) : IsRows events rows := by
  cases h with
  | between text before => exact before

/-! ### What the parser knows -/

/-- Blocks, each with the place of its start tag. -/
abbrev Placed := List (ℕ × Block)

def HasTable (l : Placed) (i : ℕ) : Prop := ∃ rows invalid, (i, Block.table rows invalid) ∈ l

/-- What is finished. -/
structure Done (page : List Event) (l : Placed) : Prop where
  sorted : l.Pairwise fun x y => x.1 < y.1
  before : ∀ x ∈ l, x.1 < page.length
  closed : ∀ i tag value, (i, Block.text tag value) ∈ l ↔ ClosedAt page i tag value
  valid : ∀ i rows, (i, Block.table rows false) ∈ l → IsTable page i rows

/-- What is captured is what is open. -/
structure Capturing (page : List Event) (s : PageParser) (l : Placed) : Prop where
  opened : ∀ i tag body, OpenAt page i tag body → s.capture = some tag ∧ s.text = texts body ∧ ∀ x ∈ l, x.1 < i
  capture : ∀ tag, s.capture = some tag → ∃ i body, OpenAt page i tag body

/-- The table that is not finished is after all blocks, and there is no other. -/
structure InProgress (page : List Event) (s : PageParser) (l : Placed) (rows : List (List String)) (i : ℕ)
    (inner : List Event) : Prop where
  start : TableFrom page i inner
  last : ∀ x ∈ l, x.1 < i
  tables : ∀ j, TableAt page j ↔ HasTable l j ∨ j = i
  valid : s.invalid = false → depth page = 1 ∧ InTable inner rows s.row s.cell s.text

/-- The tables are those finished, and the one that is not. -/
def Tables (page : List Event) (s : PageParser) (l : Placed) : Prop :=
  match s.rows with
  | none => ∀ i, TableAt page i ↔ HasTable l i
  | some rows => ∃ i inner, InProgress page s l rows i inner

structure Inv (page : List Event) (s : PageParser) (l : Placed) : Prop where
  blocks : l.map Prod.snd = s.blocks
  depth : s.tableDepth = depth page
  outside : s.rows = none ↔ Averages.depth page = 0
  done : Done page l
  capturing : Capturing page s l
  tables : Tables page s l

variable {s t : PageParser} {l : Placed}

theorem tables_none (hs : s.rows = none) : Tables page s l ↔ ∀ i, TableAt page i ↔ HasTable l i := by
  unfold Tables
  rw [hs]

theorem tables_some (hs : s.rows = some rows) : Tables page s l ↔ ∃ i inner, InProgress page s l rows i inner := by
  unfold Tables
  rw [hs]

/-- An event that closes nothing. -/
theorem Done.snoc (h : Done page l) (he : ∀ i tag body, OpenAt page i tag body → e ≠ .endTag tag) :
    Done (page ++ [e]) l where
  sorted := h.sorted
  before x hx := by
    rw [List.length_append]
    exact (h.before x hx).trans (Nat.lt_succ_self _)
  closed i tag value := by
    rw [h.closed, closedAt_snoc, or_iff_left]
    rintro ⟨b, hopen, hend, -⟩
    exact he i tag b hopen hend
  valid i rows hi := (h.valid i rows hi).snoc e

/-- A block that is now finished, after all others. -/
theorem Done.push (h : Done page l) {b : Block} (hlast : ∀ x ∈ l, x.1 < i) (hi : i < page.length)
    (hclosed : ∀ j tag value, ClosedAt (page ++ [e]) j tag value ↔
      ClosedAt page j tag value ∨ (j = i ∧ b = .text tag value))
    (hvalid : ∀ rows, b = .table rows false → IsTable (page ++ [e]) i rows) : Done (page ++ [e]) (l ++ [(i, b)]) where
  sorted := by
    refine List.pairwise_append.mpr ⟨h.sorted, List.pairwise_singleton _ _, fun x hx y hy => ?_⟩
    rw [List.mem_singleton.mp hy]
    exact hlast x hx
  before x hx := by
    rw [List.length_append]
    rcases List.mem_append.mp hx with hx | hx
    · exact (h.before x hx).trans (Nat.lt_succ_self _)
    · rw [List.mem_singleton.mp hx]
      exact hi.trans (Nat.lt_succ_self _)
  closed j tag value := by
    rw [List.mem_append, List.mem_singleton, h.closed, hclosed, Prod.mk.injEq, eq_comm (a := b)]
  valid j rows hj := by
    rcases List.mem_append.mp hj with hj | hj
    · exact (h.valid j rows hj).snoc e
    · obtain ⟨rfl, hb⟩ := Prod.mk.inj (List.mem_singleton.mp hj)
      exact hvalid rows hb.symm

theorem Done.pushText (h : Done page l) (hopen : OpenAt page i tag body) (hlast : ∀ x ∈ l, x.1 < i) :
    Done (page ++ [.endTag tag]) (l ++ [(i, .text tag (squeeze (texts body)))]) := by
  refine h.push hlast ?_ (fun j other value => ?_) fun rows hb => absurd hb (by simp)
  · obtain ⟨before, attrs, rfl, rfl, -⟩ := hopen.here
    simp
  · rw [closedAt_snoc]
    refine or_congr_right ⟨?_, ?_⟩
    · rintro ⟨b, hb, -, rfl⟩
      obtain ⟨rfl, rfl, rfl⟩ := hopen.unique hb
      exact ⟨rfl, rfl⟩
    · rintro ⟨rfl, hb⟩
      obtain ⟨rfl, rfl⟩ := Block.text.inj hb
      exact ⟨body, hopen, rfl, rfl⟩

theorem Done.pushTable {invalid : Bool} (h : Done page l) (hdepth : depth page ≠ 0) (hlast : ∀ x ∈ l, x.1 < i)
    (hi : i < page.length) (hvalid : invalid = false → IsTable (page ++ [e]) i rows) :
    Done (page ++ [e]) (l ++ [(i, .table rows invalid)]) := by
  refine h.push hlast hi (fun j tag value => ?_) fun rows' hb => ?_
  · rw [closedAt_snoc]
    refine or_congr_right ⟨?_, ?_⟩
    · rintro ⟨b, hopen, -⟩
      exact absurd hopen.depth_eq hdepth
    · rintro ⟨-, hb⟩
      exact absurd hb (by simp)
  · obtain ⟨rfl, hinvalid⟩ := Block.table.inj hb
    exact hvalid hinvalid

theorem no_open_inside (hdepth : depth page ≠ 0) (i : ℕ) (tag : String) (body : List Event) :
    ¬ OpenAt page i tag body :=
  fun h => hdepth h.depth_eq

theorem Capturing.none (h : Capturing page s l) (hdepth : Averages.depth page ≠ 0) : s.capture = none := by
  cases hc : s.capture with
  | none => rfl
  | some tag =>
    obtain ⟨i, body, hopen⟩ := h.capture tag hc
    exact absurd hopen (no_open_inside hdepth i tag body)

theorem capturing_inside (hdepth : Averages.depth page ≠ 0) (hc : s.capture = none) : Capturing page s l where
  opened i tag body h := absurd h (no_open_inside hdepth i tag body)
  capture tag h := absurd (hc.symm.trans h) (by simp)

/-- A step in a table that does not finish it. -/
theorem Inv.inside (h : Inv page s l) {rows rows' : List (List String)} (hs : s.rows = some rows)
    (hdepth : Averages.depth (page ++ [e]) ≠ 0) (ht : t.rows = some rows')
    (htdepth : t.tableDepth = Averages.depth (page ++ [e])) (hblocks : t.blocks = s.blocks)
    (hcapture : t.capture = s.capture)
    (hvalid : t.invalid = false → s.invalid = false ∧ Averages.depth (page ++ [e]) = Averages.depth page ∧
      ∀ inner, InTable inner rows s.row s.cell s.text → InTable (inner ++ [e]) rows' t.row t.cell t.text) :
    Inv (page ++ [e]) t l := by
  have hpos : Averages.depth page ≠ 0 := fun h0 => by
    rw [h.outside.mpr h0] at hs
    exact absurd hs (by simp)
  refine ⟨by rw [hblocks, h.blocks], htdepth, ?_, h.done.snoc fun i tag body hopen => ?_, ?_, ?_⟩
  · rw [ht]
    simp [hdepth]
  · exact absurd hopen (no_open_inside hpos i tag body)
  · exact capturing_inside hdepth (hcapture.trans (h.capturing.none hpos))
  · obtain ⟨i, inner, hfrom, hlast, hall, hin⟩ := (tables_some hs).mp h.tables
    refine (tables_some ht).mpr ⟨i, inner ++ [e], tableFrom_snoc.mpr (Or.inr ⟨inner, rfl, hfrom⟩), hlast, fun j => ?_,
      fun hinvalid => ?_⟩
    · rw [tableAt_snoc, hall, or_iff_left]
      rintro ⟨-, h0, -⟩
      exact hpos h0
    · obtain ⟨hsvalid, hsame, hkeep⟩ := hvalid hinvalid
      obtain ⟨hone, hinner⟩ := hin hsvalid
      exact ⟨hsame.trans hone, hkeep inner hinner⟩

/-- A table that is valid so far is not in another. -/
theorem Inv.depth_one (h : Inv page s l) (hs : s.rows = some rows) (hinvalid : s.invalid = false) :
    Averages.depth page = 1 := by
  obtain ⟨i, inner, hprogress⟩ := (tables_some hs).mp h.tables
  exact (hprogress.valid hinvalid).1

theorem Inv.pos (h : Inv page s l) (hs : s.rows = some rows) : Averages.depth page ≠ 0 := fun h0 => by
  rw [h.outside.mpr h0] at hs
  exact absurd hs (by simp)

/-- In a table in a table nothing counts. -/
theorem Inv.nested (h : Inv page s l) (hnested : 1 < s.tableDepth) (hdepth : Averages.depth (page ++ [e]) ≠ 0)
    (ht : t.rows = s.rows) (htdepth : t.tableDepth = Averages.depth (page ++ [e])) (hblocks : t.blocks = s.blocks)
    (hcapture : t.capture = s.capture) (hinvalid : t.invalid = s.invalid) : Inv (page ++ [e]) t l := by
  rw [h.depth] at hnested
  cases hs : s.rows with
  | none =>
    have h0 := h.outside.mp hs
    omega
  | some rows =>
    refine h.inside hs hdepth (ht.trans hs) htdepth hblocks hcapture fun hvalid => ?_
    have hone := h.depth_one hs (hinvalid.symm.trans hvalid)
    omega

/-- A tag outside tables that neither opens nor closes anything, or data. -/
theorem Inv.quiet (h : Inv page s l) (hs : s.rows = none) (he : e.opens = false)
    (hend : ∀ tag, s.capture = some tag → e ≠ .endTag tag) (ht : t.rows = none) (htdepth : t.tableDepth = s.tableDepth)
    (hblocks : t.blocks = s.blocks) (hcapture : t.capture = s.capture)
    (htext : s.capture.isSome → t.text = s.text ++ e.text?.toList) : Inv (page ++ [e]) t l := by
  have h0 := h.outside.mp hs
  have hdepth : Averages.depth (page ++ [e]) = 0 := by
    rw [depth_snoc, h0]
    exact depthAfter_of_not_opens he
  refine ⟨by rw [hblocks, h.blocks], ?_, iff_of_true ht hdepth, h.done.snoc fun i tag body hopen => ?_, ⟨?_, ?_⟩, ?_⟩
  · rw [htdepth, h.depth, h0, hdepth]
  · exact hend tag (h.capturing.opened i tag body hopen).1
  · intro i tag body hopen
    rcases openAt_snoc.mp hopen with ⟨-, -, -, hc, attrs, rfl⟩ | ⟨b, rfl, hb, -⟩
    · simp [Event.opens, hc] at he
    · obtain ⟨hcap, htexts, hlast⟩ := h.capturing.opened i tag b hb
      refine ⟨hcapture.trans hcap, ?_, hlast⟩
      rw [htext (by rw [hcap]; rfl), htexts]
      cases hx : e.text? <;> simp [texts, hx]
  · intro tag hc
    rw [hcapture] at hc
    obtain ⟨i, b, hb⟩ := h.capturing.capture tag hc
    exact ⟨i, b ++ [e], openAt_snoc.mpr (Or.inr ⟨b, rfl, hb, he, hend tag hc⟩)⟩
  · refine (tables_none ht).mpr fun i => ?_
    rw [tableAt_snoc_of_ne, (tables_none hs).mp h.tables]
    rintro attrs rfl
    simp [Event.opens] at he

/-! ### Every event keeps it -/

theorem Inv.startTable (h : Inv page s l) (attrs : List (String × Option String)) :
    Inv (page ++ [.startTag "table" attrs]) (s.handleStarttag "table" attrs) l := by
  have hdepth : Averages.depth (page ++ [.startTag "table" attrs]) = Averages.depth page + 1 := depth_snoc _ _
  unfold PageParser.handleStarttag
  rw [if_pos rfl]
  obtain hs | ⟨rows, hs⟩ := Option.eq_none_or_eq_some s.rows
  · have h0 := h.outside.mp hs
    rw [if_neg (by simp [hs])]
    refine ⟨h.blocks, ?_, iff_of_false (by simp) (by omega), h.done.snoc (by simp), capturing_inside (by omega) rfl, ?_⟩
    · show s.tableDepth + 1 = _
      rw [h.depth, hdepth]
    · refine (tables_some rfl).mpr ⟨page.length, [], tableFrom_snoc.mpr (Or.inl ⟨rfl, rfl, h0, attrs, rfl⟩),
        h.done.before, fun j => ?_, fun _ => ?_⟩
      · rw [tableAt_snoc, (tables_none hs).mp h.tables]
        simp [h0]
      · exact ⟨by omega, .between _ (.nil filler_nil)⟩
  · rw [if_pos (by simp [hs])]
    refine h.inside hs (by omega) hs ?_ rfl rfl fun hvalid => absurd hvalid (by simp)
    show s.tableDepth + 1 = _
    rw [h.depth, hdepth]

theorem Inv.startCaptured (h : Inv page s l) (hs : s.rows = none) (hc : isCaptured tag = true) (htable : tag ≠ "table")
    (attrs : List (String × Option String)) :
    Inv (page ++ [.startTag tag attrs]) { s with capture := some tag, text := [] } l := by
  have h0 := h.outside.mp hs
  have hdepth : Averages.depth (page ++ [.startTag tag attrs]) = 0 := by
    rw [depth_snoc, h0]
    exact if_neg htable
  refine ⟨h.blocks, ?_, iff_of_true hs hdepth, h.done.snoc (by simp), ⟨?_, ?_⟩, ?_⟩
  · show s.tableDepth = _
    rw [h.depth, h0, hdepth]
  · intro i other body hopen
    rcases openAt_snoc.mp hopen with ⟨rfl, rfl, -, -, attrs', he⟩ | ⟨b, -, -, hquiet, -⟩
    · obtain ⟨rfl, -⟩ := Event.startTag.inj he
      exact ⟨rfl, rfl, h.done.before⟩
    · simp [Event.opens, hc] at hquiet
  · intro other ho
    obtain rfl := Option.some.inj ho
    exact ⟨page.length, [], openAt_snoc.mpr (Or.inl ⟨rfl, rfl, h0, hc, attrs, rfl⟩)⟩
  · refine (tables_none (by exact hs)).mpr fun i => ?_
    rw [tableAt_snoc_of_ne, (tables_none hs).mp h.tables]
    exact fun attrs' he => htable (Event.startTag.inj he).1

theorem inv_startTag (h : Inv page s l) (tag : String) (attrs : List (String × Option String)) :
    Inv (page ++ [.startTag tag attrs]) (s.handleStarttag tag attrs) l := by
  by_cases htable : tag = "table"
  · subst htable
    exact h.startTable attrs
  have hdepth : Averages.depth (page ++ [.startTag tag attrs]) = Averages.depth page := by
    rw [depth_snoc]
    exact if_neg htable
  unfold PageParser.handleStarttag
  rw [if_neg htable]
  by_cases hnested : 1 < s.tableDepth
  · rw [if_pos hnested]
    have hpos := hnested
    rw [h.depth] at hpos
    exact h.nested hnested (by omega) rfl (by rw [h.depth, hdepth]) rfl rfl rfl
  rw [if_neg hnested]
  obtain hs | ⟨rows, hs⟩ := Option.eq_none_or_eq_some s.rows
  · rw [if_neg (by simp [hs])]
    by_cases hc : isCaptured tag = true
    · rw [if_pos hc]
      exact h.startCaptured hs hc htable attrs
    · rw [if_neg hc]
      exact h.quiet hs (by simp [Event.opens, hc, htable]) (by simp) hs rfl rfl rfl (by simp [Event.text?])
  · have hpos := h.pos hs
    have hsame : s.tableDepth = Averages.depth (page ++ [.startTag tag attrs]) := by rw [h.depth, hdepth]
    rw [if_pos (by simp [hs])]
    by_cases hrow : tag = "tr"
    · subst hrow
      rw [if_pos rfl]
      refine h.inside hs (by omega) hs hsame rfl rfl fun hvalid => ?_
      obtain ⟨hinvalid, hnone⟩ := Bool.or_eq_false_iff.mp hvalid
      rw [Option.isSome_eq_false_iff, Option.isNone_iff_eq_none] at hnone
      refine ⟨hinvalid, hdepth, fun inner hin => ?_⟩
      rw [hnone] at hin
      exact hin.startRow attrs
    rw [if_neg hrow]
    by_cases hcell : isCell tag = true
    · rw [if_pos hcell]
      refine h.inside hs (by omega) hs hsame rfl rfl fun hvalid => ?_
      simp only [Bool.or_eq_false_iff, Option.isSome_eq_false_iff, Option.isNone_iff_eq_none,
        Option.isNone_eq_false_iff, Option.isSome_iff_exists] at hvalid
      obtain ⟨⟨⟨hinvalid, hnone⟩, values, hvalues⟩, hsingle⟩ := hvalid
      refine ⟨hinvalid, hdepth, fun inner hin => ?_⟩
      rw [hnone, hvalues] at hin
      show InTable _ rows s.row (some tag) []
      rw [hvalues]
      exact hin.startCell hcell hsingle
    · rw [if_neg hcell]
      refine h.inside hs (by omega) hs hsame rfl rfl fun hvalid => ⟨hvalid, hdepth, fun inner hin => ?_⟩
      exact hin.filler (by simp [Event.structural, htable, hrow, hcell]) rfl

theorem handleData_eq (s : PageParser) (data : String) :
    s.handleData data =
      { s with text := if s.capture.isSome || s.cell.isSome then s.text ++ [data] else s.text } := by
  unfold PageParser.handleData
  split_ifs <;> rfl

theorem inv_data (h : Inv page s l) (data : String) : Inv (page ++ [.data data]) (s.handleData data) l := by
  have hdepth : Averages.depth (page ++ [.data data]) = Averages.depth page := depth_snoc _ _
  rw [handleData_eq]
  obtain hs | ⟨rows, hs⟩ := Option.eq_none_or_eq_some s.rows
  · refine h.quiet hs rfl (by simp) hs rfl rfl rfl fun hc => ?_
    simp [hc, Event.text?]
  · have hpos := h.pos hs
    refine h.inside hs (by omega) hs (by rw [h.depth, hdepth]) rfl rfl fun hvalid =>
      ⟨hvalid, hdepth, fun inner hin => ?_⟩
    rw [h.capturing.none hpos, Option.isSome_none, Bool.false_or]
    exact hin.data data

theorem hasTable_text {value : String} : HasTable (l ++ [(i, .text tag value)]) = HasTable l := by
  unfold HasTable
  simp

theorem hasTable_table {invalid : Bool} {j : ℕ} :
    HasTable (l ++ [(i, .table rows invalid)]) j ↔ HasTable l j ∨ j = i := by
  unfold HasTable
  constructor
  · rintro ⟨rows', invalid', hmem⟩
    rcases List.mem_append.mp hmem with hmem | hmem
    · exact Or.inl ⟨rows', invalid', hmem⟩
    · exact Or.inr (Prod.mk.inj (List.mem_singleton.mp hmem)).1
  · rintro (⟨rows', invalid', hmem⟩ | rfl)
    · exact ⟨rows', invalid', List.mem_append_left _ hmem⟩
    · exact ⟨rows, invalid, List.mem_append_right _ (List.mem_singleton_self _)⟩

/-- The end tag of the heading or the paragraph that is open. -/
theorem Inv.endCaptured (h : Inv page s l) (hs : s.rows = none) (hc : s.capture = some tag) :
    ∃ l', Inv (page ++ [.endTag tag])
      { s with blocks := s.blocks ++ [.text tag (squeeze s.text)], capture := none } l' := by
  obtain ⟨i, body, hopen⟩ := h.capturing.capture tag hc
  obtain ⟨-, htext, hlast⟩ := h.capturing.opened i tag body hopen
  have h0 := h.outside.mp hs
  have hdepth : Averages.depth (page ++ [.endTag tag]) = 0 := by
    rw [depth_snoc, h0]
    exact depthAfter_of_not_opens rfl
  refine ⟨l ++ [(i, .text tag (squeeze s.text))], ?_, ?_, iff_of_true hs hdepth, ?_,
    ⟨?_, fun _ h' => absurd h' (by simp)⟩, ?_⟩
  · rw [List.map_append, h.blocks]
    rfl
  · show s.tableDepth = _
    rw [h.depth, h0, hdepth]
  · rw [htext]
    exact h.done.pushText hopen hlast
  · intro j other b hb
    rcases openAt_snoc.mp hb with ⟨-, -, -, -, attrs, he⟩ | ⟨b, -, hb, -, hne⟩
    · exact absurd he (by simp)
    · obtain ⟨-, rfl, -⟩ := hopen.unique hb
      exact absurd rfl hne
  · refine (tables_none (by exact hs)).mpr fun j => ?_
    rw [hasTable_text, tableAt_snoc_of_ne (by simp), (tables_none hs).mp h.tables]

/-- The end tag of a table that is not in another. -/
theorem Inv.endTable (h : Inv page s l) (hs : s.rows = some rows) (hnested : ¬ 1 < s.tableDepth) :
    ∃ l', Inv (page ++ [.endTag "table"])
      { s with
        invalid := s.invalid || s.row.isSome || s.cell.isSome
        blocks := s.blocks ++ [.table rows (s.invalid || s.row.isSome || s.cell.isSome)]
        rows := none
        tableDepth := 0 } l' := by
  have hpos := h.pos hs
  have hdepth : Averages.depth (page ++ [.endTag "table"]) = 0 := by
    have hone := h.depth
    have hsnoc : Averages.depth (page ++ [.endTag "table"]) = Averages.depth page - 1 := depth_snoc _ _
    omega
  obtain ⟨i, inner, ⟨before, attrs, rfl, rfl, hbefore⟩, hlast, hall, hin⟩ := (tables_some hs).mp h.tables
  refine ⟨l ++ [(before.length, .table rows (s.invalid || s.row.isSome || s.cell.isSome))], ?_, hdepth.symm,
    iff_of_true rfl hdepth, h.done.pushTable hpos hlast (by simp) fun hvalid => ?_, ⟨?_, ?_⟩, ?_⟩
  · rw [List.map_append, h.blocks]
    rfl
  · simp only [Bool.or_eq_false_iff, Option.isSome_eq_false_iff, Option.isNone_iff_eq_none] at hvalid
    obtain ⟨⟨hinvalid, hrow⟩, hcell⟩ := hvalid
    obtain ⟨-, hinner⟩ := hin hinvalid
    rw [hrow, hcell] at hinner
    exact ⟨before, attrs, inner, [], by simp, rfl, hbefore, hinner.finished⟩
  · intro j tag body hopen
    rcases openAt_snoc.mp hopen with ⟨-, -, -, -, attrs', he⟩ | ⟨b, -, hb, -⟩
    · exact absurd he (by simp)
    · exact absurd hb (no_open_inside hpos j tag b)
  · intro tag hc
    exact absurd ((h.capturing.none hpos).symm.trans hc) (by simp)
  · refine (tables_none rfl).mpr fun j => ?_
    rw [hasTable_table, tableAt_snoc_of_ne (by simp), hall]

theorem inv_endTag (h : Inv page s l) (tag : String) : ∃ l', Inv (page ++ [.endTag tag]) (s.handleEndtag tag) l' := by
  have hdepth : Averages.depth (page ++ [.endTag tag]) =
      if tag = "table" then Averages.depth page - 1 else Averages.depth page := depth_snoc _ _
  have hsdepth := h.depth
  unfold PageParser.handleEndtag
  by_cases hnested : 1 < s.tableDepth
  · rw [if_pos hnested]
    by_cases htable : tag = "table"
    · rw [if_pos htable]
      rw [if_pos htable] at hdepth
      exact ⟨l, h.nested hnested (by omega) rfl (by rw [hdepth, ← hsdepth]) rfl rfl rfl⟩
    · rw [if_neg htable]
      rw [if_neg htable] at hdepth
      exact ⟨l, h.nested hnested (by omega) rfl (by rw [hdepth, hsdepth]) rfl rfl rfl⟩
  rw [if_neg hnested]
  split
  · next rows hs =>
    have hpos := h.pos hs
    by_cases htable : tag = "table"
    · subst htable
      exact h.endTable hs hnested
    rw [if_neg htable] at hdepth
    have hsame : s.tableDepth = Averages.depth (page ++ [.endTag tag]) := by rw [hdepth, hsdepth]
    refine ⟨l, ?_⟩
    by_cases hcell : isCell tag = true
    · rw [if_pos hcell]
      split
      · next row hrow =>
        by_cases hmatch : s.cell = some tag
        · rw [if_pos hmatch]
          refine h.inside hs (by omega) hs hsame rfl rfl fun hvalid => ⟨hvalid, hdepth, fun inner hin => ?_⟩
          rw [hrow, hmatch] at hin
          exact hin.endCell
        · rw [if_neg hmatch]
          exact h.inside hs (by omega) hs hsame rfl rfl fun hvalid => absurd hvalid (by simp)
      · exact h.inside hs (by omega) hs hsame rfl rfl fun hvalid => absurd hvalid (by simp)
    rw [if_neg hcell]
    by_cases htr : tag = "tr"
    · subst htr
      rw [if_pos rfl]
      split
      · next row hrow =>
        by_cases hopen : s.cell.isSome = true
        · rw [if_pos hopen]
          exact h.inside hs (by omega) hs hsame rfl rfl fun hvalid => absurd hvalid (by simp)
        · rw [if_neg hopen]
          rw [Bool.not_eq_true, Option.isSome_eq_false_iff, Option.isNone_iff_eq_none] at hopen
          refine h.inside hs (by omega) rfl hsame rfl rfl fun hvalid => ⟨hvalid, hdepth, fun inner hin => ?_⟩
          rw [hrow, hopen] at hin
          show InTable _ _ none s.cell s.text
          rw [hopen]
          exact hin.endRow
      · exact h.inside hs (by omega) hs hsame rfl rfl fun hvalid => absurd hvalid (by simp)
    · rw [if_neg htr, if_neg htable]
      refine h.inside hs (by omega) hs hsame rfl rfl fun hvalid => ⟨hvalid, hdepth, fun inner hin => ?_⟩
      exact hin.filler (by simp [Event.structural, htable, htr, hcell]) rfl
  · next hs =>
    by_cases hc : s.capture = some tag
    · rw [if_pos hc]
      exact h.endCaptured hs hc
    · rw [if_neg hc]
      refine ⟨l, h.quiet hs rfl (fun other ho he => ?_) hs rfl rfl rfl (by simp [Event.text?])⟩
      obtain rfl := Event.endTag.inj he
      exact hc ho

theorem inv_handle (h : Inv page s l) (e : Event) : ∃ l', Inv (page ++ [e]) (s.handle e) l' := by
  cases e with
  | startTag tag attrs => exact ⟨l, inv_startTag h tag attrs⟩
  | endTag tag => exact inv_endTag h tag
  | data text => exact ⟨l, inv_data h text⟩

theorem inv_new : Inv [] .new [] where
  blocks := rfl
  depth := rfl
  outside := iff_of_true rfl rfl
  done := by
    refine ⟨List.Pairwise.nil, fun _ h => absurd h List.not_mem_nil, fun i tag value => ?_,
      fun _ _ h => absurd h List.not_mem_nil⟩
    refine iff_of_false List.not_mem_nil ?_
    rintro ⟨before, attrs, body, rest, hnil, -⟩
    exact absurd hnil.symm (by simp)
  capturing := by
    refine ⟨fun i tag body h => ?_, fun tag h => absurd h (by simp [PageParser.new])⟩
    obtain ⟨before, attrs, hnil, -⟩ := h.here
    exact absurd hnil.symm (by simp)
  tables i := by
    refine iff_of_false ?_ ?_
    · rintro ⟨inner, before, attrs, hnil, -⟩
      exact absurd hnil.symm (by simp)
    · rintro ⟨rows, invalid, hmem⟩
      exact absurd hmem List.not_mem_nil

theorem inv_feed (page : List Event) : ∃ l, Inv page (.feed page) l := by
  induction page using List.reverseRecOn with
  | nil => exact ⟨[], inv_new⟩
  | append_singleton page e ih =>
    obtain ⟨l, h⟩ := ih
    unfold PageParser.feed
    rw [List.foldl_append]
    exact inv_handle h e

/-! ### The blocks of a page -/

/-- The blocks `parse_snapshot` reads; a table that is not finished is invalid. -/
def blocksOf (page : List Event) : List Block :=
  let parser := PageParser.feed page
  match parser.rows with
  | some rows => parser.blocks ++ [.table rows true]
  | none => parser.blocks

/-- What a page has, in its order. -/
structure Blocks (page : List Event) (l : Placed) : Prop where
  sorted : l.Pairwise fun x y => x.1 < y.1
  closed : ∀ i tag value, (i, Block.text tag value) ∈ l ↔ ClosedAt page i tag value
  tables : ∀ i, HasTable l i ↔ TableAt page i
  valid : ∀ i rows, (i, Block.table rows false) ∈ l → IsTable page i rows

/-- **The blocks are what the page has.** For every sequence of events. -/
theorem blocks_of_page (page : List Event) : ∃ l, l.map Prod.snd = blocksOf page ∧ Blocks page l := by
  obtain ⟨l, h⟩ := inv_feed page
  unfold blocksOf
  dsimp only
  split
  · next rows hs =>
    obtain ⟨i, inner, -, hlast, hall, -⟩ := (tables_some hs).mp h.tables
    refine ⟨l ++ [(i, .table rows true)], by rw [List.map_append, h.blocks]; rfl, ?_, ?_, fun j => ?_, ?_⟩
    · refine List.pairwise_append.mpr ⟨h.done.sorted, List.pairwise_singleton _ _, fun x hx y hy => ?_⟩
      rw [List.mem_singleton.mp hy]
      exact hlast x hx
    · intro j tag value
      rw [← h.done.closed]
      simp
    · rw [hasTable_table, hall]
    · intro j rows' hmem
      refine h.done.valid j rows' ?_
      simpa using hmem
  · next hs =>
    have htables := (tables_none hs).mp h.tables
    exact ⟨l, h.blocks, h.done.sorted, h.done.closed, fun i => (htables i).symm, h.done.valid⟩

end Averages
end FuelNear
