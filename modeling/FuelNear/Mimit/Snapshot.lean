/-
# What the page of national averages gives

`parse_snapshot` looks for the road network among the blocks of the page, and
reads one paragraph and one table under it: the reference date, and for each
of the two fuels the average of today, that of yesterday and the difference.

A check that fails raises `ValueError`. `Checks P` says of a computation that
it raises nothing else, and that what it returns has `P`; it is put together
check by check. For every sequence of events the page is either refused with a
`ValueError`, or it has what the snapshot says of it (`Published`), said in
the terms of the page alone (`page_parser_sound`).

Key definitions: `parseSnapshot`, `Checks`, `Figure`, `Quotes`, `Under`, `Published`.
Key theorems: `figure_of_isFigure`, `checks_addRow`, `Blocks.mem_under`, `page_parser_sound`.
-/
import FuelNear.Mimit.Page
import FuelNear.Numeric

namespace FuelNear
namespace Averages

/-! ### The code -/

/-- What `parse_snapshot` raises. -/
inductive ParseError where
  | valueError (message : String)
  | indexError
  | keyError (key : String)
  deriving DecidableEq

/-- `if not ok: raise ValueError(message)`. -/
def require (ok : Bool) (message : String) : Except ParseError Unit :=
  if ok then .ok () else .error (.valueError message)

/-- `l[0]`. -/
def first {α : Type} : List α → Except ParseError α
  | [] => .error .indexError
  | a :: _ => .ok a

/-- `d[key]`. -/
def item {α : Type} (d : Dict String α) (key : String) : Except ParseError α :=
  match d.get? key with
  | some a => .ok a
  | none => .error (.keyError key)

def Block.tag : Block → String
  | .text tag _ => tag
  | .table _ _ => "table"

/-- `tag.startswith("h")`. -/
def Block.isHeading (b : Block) : Bool := b.tag.toList.head? = some 'h'

def Block.isTitle : Block → Bool
  | .text tag value => (Block.text tag value).isHeading && Text.casefold value = "prezzi rete stradale"
  | .table _ _ => false

/-- The value of a paragraph that is not empty. -/
def Block.paragraph? : Block → Option String
  | .text tag value => if tag = "p" ∧ value ≠ "" then some value else none
  | .table _ _ => none

def Block.table? : Block → Option (List (List String) × Bool)
  | .text _ _ => none
  | .table rows invalid => some (rows, invalid)

/-- The blocks between the title and the next heading. -/
def roadSection (blocks : List Block) : Except ParseError (List Block) := do
  let sections := (blocks.zipIdx.filter fun b => b.1.isTitle).map Prod.snd
  require (sections.length = 1) "Missing or ambiguous road-network section"
  let title ← first sections
  return (blocks.drop (title + 1)).takeWhile fun b => !b.isHeading

/-- The letter that `re.IGNORECASE` compares. -/
def foldCase (c : Char) : Char :=
  match c.toNat with
  | 0xc0 => 'à'
  | 0x130 => 'i'
  | 0x131 => 'i'
  | 0x17f => 's'
  | 0x212a => 'k'
  | _ => c.toLower

/-- `\d`. -/
def isDigit (c : Char) : Bool := (Text.digit? c).isSome

/-- `int(s)` of digits. -/
def number (l : List Char) : ℕ := l.foldl (fun n c => 10 * n + (Text.digit? c).getD 0) 0

/-- `\d{2}-\d{2}-\d{4}`. -/
def isDateText : List Char → Bool
  | [d, d', '-', m, m', '-', y, y', y'', y'''] => [d, d', m, m', y, y', y'', y'''].all isDigit
  | _ => false

/-- The text before the date. -/
def selfService : List Char := "Medie dei prezzi in modalità Self - Aggiornamento ".toList

/-- `match[1]` of the `re.fullmatch` of a paragraph. -/
def matchMetadata (metadata : String) : Option String :=
  let start := metadata.toList.take selfService.length
  let date := metadata.toList.drop selfService.length
  if start.map foldCase = selfService.map foldCase ∧ isDateText date = true then some (String.ofList date) else none

/-- `3[0-1]|[1-2]\d|0[1-9]`. -/
def isDay (d d' : Char) : Bool :=
  (d = '3' && (d' = '0' || d' = '1')) || ((d = '1' || d = '2') && isDigit d') || (d = '0' && '1' ≤ d' && d' ≤ '9')

/-- `1[0-2]|0[1-9]`. -/
def isMonth (m m' : Char) : Bool :=
  (m = '1' && (m' = '0' || m' = '1' || m' = '2')) || (m = '0' && '1' ≤ m' && m' ≤ '9')

def isLeap (year : ℕ) : Bool := year % 4 = 0 && (year % 100 ≠ 0 || year % 400 = 0)

/-- The days of the months of a year. -/
def monthLengths (year : ℕ) : List ℕ := [31, if isLeap year then 29 else 28, 31, 30, 31, 30, 31, 31, 30, 31, 30, 31]

/-- `date(year, month, day)` of a month from 1 to 12, in days from 1 January 1970. -/
def dateOf (year month day : ℕ) : Except ParseError ℤ := do
  require (1 ≤ year) ("year " ++ toString year ++ " is out of range")
  require (day ≤ (monthLengths year).getD (month - 1) 0) "day is out of range for month"
  let before := (year - 1) * 365 + (year - 1) / 4 - (year - 1) / 100 + (year - 1) / 400
  return (before + ((monthLengths year).take (month - 1)).sum + day : ℕ) - 719163

/-- `datetime.strptime(text, "%d-%m-%Y").date()` of two, two and four digits. -/
def strptime (text : String) : Except ParseError ℤ :=
  match text.toList with
  | [d, d', '-', m, m', '-', y, y', y'', y'''] =>
    if isDay d d' && isMonth m m' then dateOf (number [y, y', y'', y''']) (number [m, m']) (number [d, d'])
    else .error (.valueError ("time data '" ++ text ++ "' does not match format '%d-%m-%Y'"))
  | _ => .error (.valueError ("time data '" ++ text ++ "' does not match format '%d-%m-%Y'"))

def referenceDate (metadata : String) : Except ParseError ℤ :=
  match matchMetadata metadata with
  | none => .error (.valueError "Unsupported service mode or reference date")
  | some text => strptime text

/-- The sign of a figure, and the rest. -/
def signed : List Char → List Char × List Char
  | '+' :: l => (['+'], l)
  | '-' :: l => (['-'], l)
  | l => ([], l)

/-- `[+-]?\d+[.,]\d{3}`. -/
def isFigure (x : String) : Bool :=
  let rest := (signed x.toList).2
  match rest.dropWhile isDigit with
  | point :: places =>
    !(rest.takeWhile isDigit).isEmpty && (point = '.' || point = ',') && places.length = 3 && places.all isDigit
  | [] => false

/-- `Decimal(x.replace(",", "."))` of a figure. -/
def decimal (x : String) : ℚ :=
  let (sign, rest) := signed x.toList
  let whole := rest.takeWhile isDigit
  let places := (rest.dropWhile isDigit).drop 1
  (if sign = ['-'] then -1 else 1) * number (whole ++ places) / 10 ^ places.length

/-- A turn of the loop over the rows. The numbers that are subtracted have at
most five digits, so the difference is exact. -/
def addRow (prices : Dict String Price) : List String → Except ParseError (Dict String Price)
  | [name, today, yesterday, difference] => do
    let fuel := Text.casefold name
    require ((fuel = "benzina" || fuel = "gasolio") && !prices.contains fuel) "Unexpected or duplicate fuel"
    require ([today, yesterday, difference].all isFigure) "Invalid price precision or format"
    let current := decimal today
    let previous := decimal yesterday
    let change := decimal difference
    require (0 < current && current < 100 && 0 < previous && previous < 100) "Invalid fuel price"
    require (current - previous = change) "Inconsistent published difference"
    return prices.set fuel ⟨current, previous, change⟩
  | _ => .error (.valueError "Incomplete price row")

def columnNames : List String := ["TIPOLOGIA", "OGGI", "IERI", "DIFFERENZA"]

def readPrices (rows : List (List String)) : Except ParseError (Dict String Price) := do
  require (rows.length = 3) "Unexpected national-average columns or row count"
  let header ← first rows
  require (header.map Text.upper = columnNames) "Unexpected national-average columns or row count"
  (rows.drop 1).foldlM addRow Dict.empty

def parseSnapshot (page : List Event) : Except ParseError Snapshot := do
  let blocks ← roadSection (blocksOf page)
  let metadata := blocks.filterMap Block.paragraph?
  let tables := blocks.filterMap Block.table?
  require (metadata.length = 1 && tables.length = 1) "Incomplete or ambiguous road-network data"
  let paragraph ← first metadata
  let date ← referenceDate paragraph
  let (rows, invalid) ← first tables
  require (!invalid) "Malformed road-network table"
  let prices ← readPrices rows
  let benzina ← item prices "benzina"
  let gasolio ← item prices "gasolio"
  return { referenceDate := date, benzina := benzina, gasolio := gasolio }

/-! ### Nothing but `ValueError` -/

section Checks

variable {α β : Type} {P : α → Prop} {Q : β → Prop}

/-- Nothing but a `ValueError` is raised, and what is returned has `P`. -/
def Checks (P : α → Prop) : Except ParseError α → Prop
  | .ok a => P a
  | .error (.valueError _) => True
  | .error _ => False

theorem Checks.bind {x : Except ParseError α} {f : α → Except ParseError β} (hx : Checks P x)
    (hf : ∀ a, P a → Checks Q (f a)) : Checks Q (x >>= f) := by
  cases x with
  | ok a => exact hf a hx
  | error e =>
    cases e with
    | valueError message => trivial
    | indexError => exact hx.elim
    | keyError key => exact hx.elim

theorem Checks.returned {x : Except ParseError α} (h : Checks P x) : Checks (fun a => x = .ok a) x := by
  cases x with
  | ok a => exact rfl
  | error e =>
    cases e with
    | valueError message => trivial
    | indexError => exact h.elim
    | keyError key => exact h.elim

theorem checks_require (ok : Bool) (message : String) : Checks (fun _ => ok = true) (require ok message) := by
  cases ok
  · trivial
  · exact rfl

theorem checks_first {l : List α} (h : l.length = 1) : Checks (fun a => l = [a]) (first l) := by
  obtain ⟨a, rfl⟩ := List.length_eq_one_iff.mp h
  exact rfl

theorem checks_item {d : Dict String α} {key : String} {a : α} (h : d.get? key = some a) :
    Checks (fun b => b = a) (item d key) := by
  unfold item
  rw [h]
  exact rfl

end Checks

/-! ### The figures -/

/-- A number of three decimals: a sign or none, digits, a point or a comma, three digits. -/
def Figure (x : String) (q : ℚ) : Prop :=
  ∃ sign whole point places, x.toList = sign ++ whole ++ point :: places ∧ (sign = [] ∨ sign = ['+'] ∨ sign = ['-']) ∧
    whole ≠ [] ∧ (∀ c ∈ whole ++ places, isDigit c = true) ∧ (point = '.' ∨ point = ',') ∧ places.length = 3 ∧
    q = (if sign = ['-'] then -1 else 1) * number (whole ++ places) / 1000

theorem signed_spec (l : List Char) : l = (signed l).1 ++ (signed l).2 ∧
    ((signed l).1 = [] ∨ (signed l).1 = ['+'] ∨ (signed l).1 = ['-']) := by
  unfold signed
  split <;> simp

theorem figure_of_isFigure {x : String} (h : isFigure x = true) : Figure x (decimal x) := by
  obtain ⟨happend, hsign⟩ := signed_spec x.toList
  unfold isFigure at h
  unfold decimal
  dsimp only at h ⊢
  generalize (signed x.toList).1 = sign at happend hsign ⊢
  generalize (signed x.toList).2 = rest at h happend ⊢
  split at h
  · next point places hrest =>
    simp only [Bool.and_eq_true, Bool.not_eq_true', List.isEmpty_eq_false_iff, Bool.or_eq_true, decide_eq_true_eq,
      List.all_eq_true] at h
    obtain ⟨⟨⟨hwhole, hpoint⟩, hlength⟩, hplaces⟩ := h
    refine ⟨sign, rest.takeWhile isDigit, point, places, ?_, hsign, hwhole, fun c hc => ?_, hpoint, hlength, ?_⟩
    · rw [happend, List.append_assoc, ← hrest, List.takeWhile_append_dropWhile]
    · rcases List.mem_append.mp hc with hc | hc
      · exact List.mem_takeWhile_imp hc
      · exact hplaces c hc
    · rw [hrest, List.drop_succ_cons, List.drop_zero, hlength]
      norm_num
  · exact absurd h (by simp)

theorem Figure.units {x : String} {q : ℚ} (h : Figure x q) : ∃ n : ℤ, q = n / 1000 := by
  obtain ⟨sign, whole, point, places, -, -, -, -, -, -, rfl⟩ := h
  refine ⟨(if sign = ['-'] then -1 else 1) * number (whole ++ places), ?_⟩
  push_cast
  rfl

/-! ### The rows -/

/-- The row gives these figures for the fuel. -/
structure Quotes (row : List String) (fuel : String) (p : Price) : Prop where
  cells : ∃ name today yesterday difference, row = [name, today, yesterday, difference] ∧ Text.casefold name = fuel ∧
    Figure today p.current ∧ Figure yesterday p.previous ∧ Figure difference p.change
  current : 0 < p.current ∧ p.current < 100
  previous : 0 < p.previous ∧ p.previous < 100
  change : p.current - p.previous = p.change

/-- A header and a row for each of the two fuels. -/
def RoadRows (rows : List (List String)) (benzina gasolio : Price) : Prop :=
  ∃ header row row', rows = [header, row, row'] ∧ header.map Text.upper = columnNames ∧
    ((Quotes row "benzina" benzina ∧ Quotes row' "gasolio" gasolio) ∨
      (Quotes row "gasolio" gasolio ∧ Quotes row' "benzina" benzina))

/-- What a turn of the loop adds. -/
def Adds (prices : Dict String Price) (row : List String) (prices' : Dict String Price) : Prop :=
  ∃ fuel p, (fuel = "benzina" ∨ fuel = "gasolio") ∧ prices.get? fuel = none ∧ prices' = prices.set fuel p ∧
    Quotes row fuel p

theorem checks_addRow (prices : Dict String Price) (row : List String) :
    Checks (Adds prices row) (addRow prices row) := by
  unfold addRow
  split
  · next name today yesterday difference =>
    refine Checks.bind (checks_require _ _) fun _ hfuel => ?_
    refine Checks.bind (checks_require _ _) fun _ hfigures => ?_
    refine Checks.bind (checks_require _ _) fun _ hrange => ?_
    refine Checks.bind (checks_require _ _) fun _ hchange => ?_
    simp only [Bool.and_eq_true, Bool.or_eq_true, decide_eq_true_eq, Bool.not_eq_true', Dict.contains,
      Option.isSome_eq_false_iff, Option.isNone_iff_eq_none] at hfuel
    simp only [List.all_cons, List.all_nil, Bool.and_true, Bool.and_eq_true] at hfigures
    simp only [Bool.and_eq_true, decide_eq_true_eq] at hrange
    obtain ⟨hname, hnew⟩ := hfuel
    obtain ⟨htoday, hyesterday, hdifference⟩ := hfigures
    obtain ⟨⟨⟨hpos, hlt⟩, hpos'⟩, hlt'⟩ := hrange
    refine ⟨Text.casefold name, _, hname, hnew, rfl, ?_, ⟨hpos, hlt⟩, ⟨hpos', hlt'⟩, of_decide_eq_true hchange⟩
    exact ⟨name, today, yesterday, difference, rfl, rfl, figure_of_isFigure htoday, figure_of_isFigure hyesterday,
      figure_of_isFigure hdifference⟩
  · trivial

/-- Both fuels are there after two rows. -/
theorem roadRows_of_adds {header row row' : List String} {d d' : Dict String Price}
    (hheader : header.map Text.upper = columnNames) (h : Adds Dict.empty row d) (h' : Adds d row' d') :
    ∃ benzina gasolio, d'.get? "benzina" = some benzina ∧ d'.get? "gasolio" = some gasolio ∧
      RoadRows [header, row, row'] benzina gasolio := by
  obtain ⟨fuel, p, hfuel, -, rfl, hp⟩ := h
  obtain ⟨fuel', p', hfuel', hnew, rfl, hp'⟩ := h'
  rw [Dict.get?_set] at hnew
  rcases hfuel with rfl | rfl <;> rcases hfuel' with rfl | rfl
  · exact absurd hnew (by simp)
  · refine ⟨p, p', ?_, ?_, header, row, row', rfl, hheader, Or.inl ⟨hp, hp'⟩⟩ <;> simp [Dict.get?_set]
  · refine ⟨p', p, ?_, ?_, header, row, row', rfl, hheader, Or.inr ⟨hp, hp'⟩⟩ <;> simp [Dict.get?_set]
  · exact absurd hnew (by simp)

theorem checks_readPrices (rows : List (List String)) :
    Checks (fun d => ∃ benzina gasolio, d.get? "benzina" = some benzina ∧ d.get? "gasolio" = some gasolio ∧
      RoadRows rows benzina gasolio) (readPrices rows) := by
  unfold readPrices
  refine Checks.bind (checks_require _ _) fun _ hlength => ?_
  obtain ⟨header, row, row', rfl⟩ := List.length_eq_three.mp (of_decide_eq_true hlength)
  refine @Checks.bind _ _ (fun a => a = header) _ _ _ rfl ?_
  rintro _ rfl
  refine Checks.bind (checks_require _ _) fun _ hheader => ?_
  rw [List.drop_succ_cons, List.drop_zero, List.foldlM_cons]
  refine Checks.bind (checks_addRow _ row) fun d hd => ?_
  rw [List.foldlM_cons]
  refine Checks.bind (checks_addRow d row') fun d' hd' => ?_
  exact roadRows_of_adds (of_decide_eq_true hheader) hd hd'

/-! ### What the table keeps -/

theorem numeric63_eq (x : ℚ) : numeric63 x = Numeric.stored 6 3 x := by
  unfold numeric63 Numeric.stored
  norm_num

/-- Three decimals and less than a hundred. -/
theorem numeric63_of_units {x : ℚ} (h : ∃ n : ℤ, x = n / 1000) (hx : |x| < 100) : numeric63 x = some x := by
  obtain ⟨n, rfl⟩ := h
  rw [numeric63_eq]
  refine Numeric.stored_of_fits ⟨n, by norm_num, ?_⟩
  have hn : |(n : ℚ)| < 100000 := by
    rw [abs_div, abs_of_pos (by norm_num : (0 : ℚ) < 1000), div_lt_iff₀ (by norm_num)] at hx
    linarith
  have hn' : |n| < 100000 := by exact_mod_cast hn
  omega

variable {row : List String} {fuel : String} {p : Price}

theorem Quotes.passes (h : Quotes row fuel p) : p.passes = true := by
  simp [Price.passes, h.current, h.previous, h.change]

theorem Quotes.stored (h : Quotes row fuel p) : p.stored = some p := by
  obtain ⟨name, today, yesterday, difference, -, -, htoday, hyesterday, hdifference⟩ := h.cells
  obtain ⟨hpos, hlt⟩ := h.current
  obtain ⟨hpos', hlt'⟩ := h.previous
  have hcurrent := numeric63_of_units htoday.units (abs_lt.mpr ⟨by linarith, hlt⟩)
  have hprevious := numeric63_of_units hyesterday.units (abs_lt.mpr ⟨by linarith, hlt'⟩)
  have hchange := numeric63_of_units hdifference.units (by
    rw [← h.change]
    exact abs_lt.mpr ⟨by linarith, by linarith⟩)
  simp [Price.stored, hcurrent, hprevious, hchange]

/-! ### Lists -/

theorem zipIdx_split {α : Type*} {l : List α} {before after : List (α × ℕ)} {a : α} {k : ℕ}
    (h : l.zipIdx = before ++ (a, k) :: after) :
    l = before.map Prod.fst ++ a :: after.map Prod.fst ∧ (before.map Prod.fst).length = k := by
  have hl : l = (l.zipIdx).map Prod.fst := (List.zipIdx_map_fst 0 l).symm
  have hk : l.zipIdx[before.length]? = some (a, k) := by
    rw [h, List.getElem?_append_right le_rfl]
    simp
  rw [List.getElem?_zipIdx, Option.map_eq_some_iff] at hk
  obtain ⟨b, -, hb⟩ := hk
  obtain ⟨-, rfl⟩ := Prod.mk.inj hb
  refine ⟨?_, by simp⟩
  rw [h] at hl
  simpa using hl

/-- Of a list in the order of `f`, an element is taken if all up to it pass. -/
theorem mem_takeWhile_iff {α : Type*} {f : α → ℕ} {p : α → Bool} {x : α} : ∀ {l : List α},
    l.Pairwise (fun a b => f a < f b) → (x ∈ l.takeWhile p ↔ x ∈ l ∧ ∀ y ∈ l, f y ≤ f x → p y = true)
  | [], _ => by simp
  | a :: l, h => by
    obtain ⟨ha, hl⟩ := List.pairwise_cons.mp h
    by_cases hp : p a = true
    · rw [List.takeWhile_cons_of_pos hp, List.mem_cons, mem_takeWhile_iff hl]
      constructor
      · rintro (rfl | ⟨hx, hpass⟩)
        · refine ⟨List.mem_cons_self, fun y hy hyx => ?_⟩
          rcases List.mem_cons.mp hy with rfl | hy
          · exact hp
          · exact absurd (ha y hy) hyx.not_gt
        · exact ⟨List.mem_cons_of_mem a hx, List.forall_mem_cons.mpr ⟨fun _ => hp, hpass⟩⟩
      · rintro ⟨hx, hpass⟩
        exact (List.mem_cons.mp hx).imp_right fun hx => ⟨hx, fun y hy => hpass y (List.mem_cons_of_mem a hy)⟩
    · rw [List.takeWhile_cons_of_neg hp]
      refine iff_of_false List.not_mem_nil ?_
      rintro ⟨hx, hpass⟩
      rcases List.mem_cons.mp hx with rfl | hx'
      · exact hp (hpass x hx le_rfl)
      · exact hp (hpass a List.mem_cons_self (ha x hx').le)

theorem filterMap_singleton {α β : Type*} {f : α → Option β} {l : List α} {b : β} (h : l.filterMap f = [b]) :
    ∃ a ∈ l, f a = some b ∧ ∀ x ∈ l, f x ≠ none → x = a := by
  obtain ⟨before, a, after, rfl, hbefore, ha, hafter⟩ := List.filterMap_eq_cons_iff.mp h
  rw [List.filterMap_eq_nil_iff] at hafter
  refine ⟨a, by simp, ha, fun x hx hne => ?_⟩
  rcases List.mem_append.mp hx with hx | hx
  · exact absurd (hbefore x hx) hne
  · rcases List.mem_cons.mp hx with rfl | hx
    · rfl
    · exact absurd (hafter x hx) hne

/-! ### The section -/

/-- The one title, and the blocks under it. -/
def Road (blocks under : List Block) : Prop :=
  ∃ before title after, blocks = before ++ title :: after ∧ title.isTitle = true ∧
    (∀ b ∈ before ++ after, b.isTitle = false) ∧ under = after.takeWhile fun b => !b.isHeading

theorem checks_roadSection (blocks : List Block) : Checks (Road blocks) (roadSection blocks) := by
  unfold roadSection
  dsimp only
  refine Checks.bind (checks_require _ _) fun _ hlength => ?_
  refine Checks.bind (checks_first (of_decide_eq_true hlength)) fun first hk => ?_
  obtain ⟨⟨title, k⟩, hfilter, rfl⟩ := List.map_eq_singleton_iff.mp hk
  obtain ⟨before, after, hsplit, hbefore, htitle, hafter⟩ := List.filter_eq_cons_iff.mp hfilter
  obtain ⟨hblocks, hindex⟩ := zipIdx_split hsplit
  rw [List.filter_eq_nil_iff] at hafter
  refine ⟨before.map Prod.fst, title, after.map Prod.fst, hblocks, htitle, fun b hb => ?_, ?_⟩
  · rcases List.mem_append.mp hb with hb | hb <;> obtain ⟨x, hx, rfl⟩ := List.mem_map.mp hb
    · simpa using hbefore x hx
    · simpa using hafter x hx
  · dsimp only
    rw [hblocks, ← hindex, ← List.drop_drop, List.drop_left]
    rfl

/-! ### The page -/

/-- The place `i` and no other. -/
def Only (P : ℕ → Prop) (i : ℕ) : Prop := ∀ j, P j ↔ j = i

/-- A closed heading with the title of the road network. -/
def TitleAt (page : List Event) (i : ℕ) : Prop :=
  ∃ tag value, ClosedAt page i tag value ∧ isHeading tag = true ∧ Text.casefold value = "prezzi rete stradale"

/-- After the heading at `h` and before the next closed heading. -/
def Under (page : List Event) (h i : ℕ) : Prop :=
  h < i ∧ ∀ j tag value, ClosedAt page j tag value → isHeading tag = true → h < j → i < j

/-- A closed paragraph that is not empty. -/
def FilledAt (page : List Event) (i : ℕ) : Prop := ∃ value, ClosedAt page i "p" value ∧ value ≠ ""

/-- The page has what the snapshot says, once, and the table of the database
takes the snapshot as it is. -/
structure Published (page : List Event) (s : Snapshot) : Prop where
  found : ∃ title paragraph table value rows, Only (TitleAt page) title ∧
    Only (fun i => Under page title i ∧ FilledAt page i) paragraph ∧ ClosedAt page paragraph "p" value ∧
    referenceDate value = .ok s.referenceDate ∧
    Only (fun i => Under page title i ∧ TableAt page i) table ∧ IsTable page table rows ∧
    RoadRows rows s.benzina s.gasolio
  passes : s.benzina.passes = true ∧ s.gasolio.passes = true
  stored : ∀ started acquired, (SaveCall.mk s started acquired).columns =
    some ⟨s.referenceDate, started, acquired, s.benzina, s.gasolio⟩

variable {page : List Event} {l before after : Placed} {i j : ℕ} {tag value : String} {b title : Block}

theorem isHeading_text (h : isCaptured tag = true) : (Block.text tag value).isHeading = isHeading tag := by
  show decide (tag.toList.head? = some 'h') = isHeading tag
  simp only [isCaptured, isHeading, Bool.or_eq_true, List.contains_iff_mem, List.mem_cons, List.not_mem_nil, or_false,
    decide_eq_true_eq] at h
  rcases h with (rfl | rfl | rfl | rfl | rfl | rfl) | rfl <;> decide

theorem isHeading_table (rows : List (List String)) (invalid : Bool) :
    (Block.table rows invalid).isHeading = false := by
  show decide ("table".toList.head? = some 'h') = false
  decide

theorem ClosedAt.isHeading_eq (h : ClosedAt page i tag value) : (Block.text tag value).isHeading = isHeading tag := by
  obtain ⟨-, -, -, -, -, -, -, hcaptured, -⟩ := h
  exact isHeading_text hcaptured

/-- A heading among the blocks is a closed heading. -/
theorem Blocks.heading (h : Blocks page l) (hmem : (j, b) ∈ l) (hb : b.isHeading = true) :
    ∃ tag value, ClosedAt page j tag value ∧ isHeading tag = true := by
  cases b with
  | table rows invalid =>
    exact absurd ((isHeading_table rows invalid).symm.trans hb) (by simp)
  | text tag value =>
    have hclosed := (h.closed j tag value).mp hmem
    exact ⟨tag, value, hclosed, hclosed.isHeading_eq ▸ hb⟩

/-- What comes after the title. -/
theorem Blocks.mem_after (h : Blocks page l) (hl : l = before ++ (i, title) :: after) {x : ℕ × Block} :
    x ∈ after ↔ x ∈ l ∧ i < x.1 := by
  have hsorted := h.sorted
  rw [hl, List.pairwise_append, List.pairwise_cons] at hsorted
  obtain ⟨-, ⟨hafter, -⟩, hbefore⟩ := hsorted
  rw [hl, List.mem_append, List.mem_cons]
  constructor
  · intro hx
    exact ⟨Or.inr (Or.inr hx), hafter x hx⟩
  · rintro ⟨hx | rfl | hx, hlt⟩
    · exact absurd (hbefore x hx (i, title) List.mem_cons_self) hlt.le.not_gt
    · exact absurd hlt (lt_irrefl _)
    · exact hx

/-- The blocks that are read are those under the title. -/
theorem Blocks.mem_under (h : Blocks page l) (hl : l = before ++ (i, title) :: after) :
    (j, b) ∈ after.takeWhile (fun x => !x.2.isHeading) ↔ (j, b) ∈ l ∧ Under page i j := by
  have hsorted := h.sorted
  rw [hl, List.pairwise_append, List.pairwise_cons] at hsorted
  rw [mem_takeWhile_iff hsorted.2.1.2, h.mem_after hl]
  constructor
  · rintro ⟨⟨hmem, hlt⟩, hquiet⟩
    refine ⟨hmem, hlt, fun k tag value hclosed hheading hik => ?_⟩
    by_contra hjk
    have hnot := hquiet _ ((h.mem_after hl).mpr ⟨(h.closed k tag value).mpr hclosed, hik⟩) (not_lt.mp hjk)
    simp [hclosed.isHeading_eq, hheading] at hnot
  · rintro ⟨hmem, hlt, hunder⟩
    refine ⟨⟨hmem, hlt⟩, fun y hy hyj => ?_⟩
    obtain ⟨hyl, hiy⟩ := (h.mem_after hl).mp hy
    by_contra hheading
    obtain ⟨tag, value, hclosed, htag⟩ := h.heading hyl (by simpa using hheading)
    exact absurd (hunder y.1 tag value hclosed htag hiy) hyj.not_gt

/-- What is read of the blocks under the title, if it is one, is at one place. -/
theorem only_under {α : Type*} {f : Block → Option α} {P : ℕ → Prop} {a : α} (h : Blocks page l)
    (hl : l = before ++ (i, title) :: after)
    (hread : ((after.map Prod.snd).takeWhile fun b => !b.isHeading).filterMap f = [a])
    (hP : ∀ j, P j ↔ ∃ b, (j, b) ∈ l ∧ f b ≠ none) :
    ∃ k b, Only (fun j => Under page i j ∧ P j) k ∧ (k, b) ∈ l ∧ f b = some a := by
  rw [List.takeWhile_map, List.filterMap_map] at hread
  obtain ⟨⟨k, b⟩, hk, ha, honly⟩ := filterMap_singleton hread
  obtain ⟨hmem, hunder⟩ := (h.mem_under hl).mp hk
  refine ⟨k, b, fun j => ⟨?_, ?_⟩, hmem, ha⟩
  · rintro ⟨hj, hPj⟩
    obtain ⟨c, hc, hne⟩ := (hP j).mp hPj
    have heq := honly (j, c) ((h.mem_under hl).mpr ⟨hc, hj⟩) hne
    exact (Prod.mk.inj heq).1
  · rintro rfl
    have hb : f b ≠ none := fun hnone => absurd (hnone.symm.trans ha) (by simp)
    exact ⟨hunder, (hP j).mpr ⟨b, hmem, hb⟩⟩

theorem paragraph?_eq {v : String} : b.paragraph? = some v ↔ b = .text "p" v ∧ v ≠ "" := by
  cases b with
  | table rows invalid => simp [Block.paragraph?]
  | text tag value =>
    simp only [Block.paragraph?, Option.ite_none_right_eq_some, Option.some.injEq, Block.text.injEq]
    constructor
    · rintro ⟨⟨rfl, hne⟩, rfl⟩
      exact ⟨⟨rfl, rfl⟩, hne⟩
    · rintro ⟨⟨rfl, rfl⟩, hne⟩
      exact ⟨⟨rfl, hne⟩, rfl⟩

theorem table?_eq {rows : List (List String)} {invalid : Bool} :
    b.table? = some (rows, invalid) ↔ b = .table rows invalid := by
  cases b <;> simp [Block.table?]

theorem Blocks.filled (h : Blocks page l) (j : ℕ) : FilledAt page j ↔ ∃ b, (j, b) ∈ l ∧ b.paragraph? ≠ none := by
  constructor
  · rintro ⟨value, hclosed, hne⟩
    refine ⟨_, (h.closed j "p" value).mpr hclosed, ?_⟩
    rw [paragraph?_eq.mpr ⟨rfl, hne⟩]
    simp
  · rintro ⟨b, hb, hsome⟩
    obtain ⟨value, hvalue⟩ := Option.ne_none_iff_exists'.mp hsome
    obtain ⟨rfl, hne⟩ := paragraph?_eq.mp hvalue
    exact ⟨value, (h.closed j "p" value).mp hb, hne⟩

theorem Blocks.tableAt (h : Blocks page l) (j : ℕ) : TableAt page j ↔ ∃ b, (j, b) ∈ l ∧ b.table? ≠ none := by
  rw [← h.tables]
  constructor
  · rintro ⟨rows, invalid, hmem⟩
    exact ⟨_, hmem, by simp [Block.table?]⟩
  · rintro ⟨b, hb, hsome⟩
    obtain ⟨⟨rows, invalid⟩, hvalue⟩ := Option.ne_none_iff_exists'.mp hsome
    rw [table?_eq.mp hvalue] at hb
    exact ⟨rows, invalid, hb⟩

theorem Block.isTitle_iff : b.isTitle = true ↔
    ∃ tag value, b = .text tag value ∧ b.isHeading = true ∧ Text.casefold value = "prezzi rete stradale" := by
  cases b with
  | table rows invalid => simp [Block.isTitle]
  | text tag value => simp [Block.isTitle]

/-- The title among the blocks is the one of the page. -/
theorem only_title (h : Blocks page l) (hl : l = before ++ (i, title) :: after) (htitle : title.isTitle = true)
    (hother : ∀ b ∈ before.map Prod.snd ++ after.map Prod.snd, b.isTitle = false) : Only (TitleAt page) i := by
  intro j
  constructor
  · rintro ⟨tag, value, hclosed, hheading, hvalue⟩
    have hmem := (h.closed j tag value).mpr hclosed
    have hyes : (Block.text tag value).isTitle = true :=
      Block.isTitle_iff.mpr ⟨tag, value, rfl, hclosed.isHeading_eq.trans hheading, hvalue⟩
    by_contra hne
    have hmem' : (j, Block.text tag value) ∈ before ++ after := by
      rw [hl] at hmem
      simpa [hne] using hmem
    have hno := hother (.text tag value) (by
      rw [← List.map_append]
      exact List.mem_map_of_mem hmem')
    exact absurd (hno.symm.trans hyes) (by simp)
  · rintro rfl
    obtain ⟨tag, value, rfl, hheading, hvalue⟩ := Block.isTitle_iff.mp htitle
    have hclosed : ClosedAt page j tag value := (h.closed j tag value).mp (by rw [hl]; simp)
    exact ⟨tag, value, hclosed, hclosed.isHeading_eq ▸ hheading, hvalue⟩

theorem checks_dateOf (year month day : ℕ) : Checks (fun _ => True) (dateOf year month day) := by
  unfold dateOf
  exact Checks.bind (checks_require _ _) fun _ _ => Checks.bind (checks_require _ _) fun _ _ => trivial

theorem checks_referenceDate (metadata : String) :
    Checks (fun date => referenceDate metadata = .ok date) (referenceDate metadata) := by
  refine Checks.returned (P := fun _ => True) ?_
  unfold referenceDate strptime
  split
  · trivial
  · split
    · split_ifs
      · exact checks_dateOf _ _ _
      · trivial
    · trivial

theorem checks_parseSnapshot (page : List Event) : Checks (Published page) (parseSnapshot page) := by
  obtain ⟨l, hblocks, h⟩ := blocks_of_page page
  unfold parseSnapshot
  rw [← hblocks]
  refine Checks.bind (checks_roadSection _) fun under hroad => ?_
  obtain ⟨before', title, after', hsplit, htitle, hother, rfl⟩ := hroad
  obtain ⟨before, rest, hl, rfl, hrest⟩ := List.map_eq_append_iff.mp hsplit
  obtain ⟨⟨i, title⟩, after, rfl, rfl, rfl⟩ := List.map_eq_cons_iff.mp hrest
  dsimp only
  refine Checks.bind (checks_require _ _) fun _ hlength => ?_
  rw [Bool.and_eq_true, decide_eq_true_eq, decide_eq_true_eq] at hlength
  refine Checks.bind (checks_first hlength.1) fun value hparagraph => ?_
  refine Checks.bind (checks_referenceDate value) fun date hdate => ?_
  refine Checks.bind (checks_first hlength.2) fun table htable => ?_
  obtain ⟨rows, invalid⟩ := table
  refine Checks.bind (checks_require _ _) fun _ hvalid => ?_
  refine Checks.bind (checks_readPrices rows) fun prices hprices => ?_
  obtain ⟨benzina, gasolio, hbenzina, hgasolio, hrows⟩ := hprices
  refine Checks.bind (checks_item hbenzina) fun _ hb => ?_
  refine Checks.bind (checks_item hgasolio) fun _ hg => ?_
  rw [hb, hg]
  obtain ⟨m, b, hm, hmem, hb⟩ := only_under h hl hparagraph h.filled
  obtain ⟨t, c, ht, hmem', hc⟩ := only_under h hl htable h.tableAt
  obtain ⟨rfl, -⟩ := paragraph?_eq.mp hb
  obtain rfl := table?_eq.mp hc
  obtain rfl : invalid = false := by simpa using hvalid
  have hquotes : (∃ row, Quotes row "benzina" benzina) ∧ ∃ row, Quotes row "gasolio" gasolio := by
    obtain ⟨header, row, row', -, -, ⟨hfirst, hsecond⟩ | ⟨hfirst, hsecond⟩⟩ := hrows
    · exact ⟨⟨row, hfirst⟩, row', hsecond⟩
    · exact ⟨⟨row', hsecond⟩, row, hfirst⟩
  obtain ⟨⟨_, hbenzina'⟩, _, hgasolio'⟩ := hquotes
  refine ⟨⟨i, m, t, value, rows, only_title h hl htitle hother, hm, (h.closed m "p" value).mp hmem, hdate, ht,
    h.valid t rows hmem', hrows⟩, ⟨hbenzina'.passes, hgasolio'.passes⟩, fun started acquired => ?_⟩
  simp [SaveCall.columns, hbenzina'.stored, hgasolio'.stored]

/-- **The parser is sound.** For every sequence of start tags, end tags and
data a `ValueError` is raised, or the page has what the snapshot says. -/
theorem page_parser_sound (page : List Event) :
    (∃ message, parseSnapshot page = .error (.valueError message)) ∨
      ∃ s, parseSnapshot page = .ok s ∧ Published page s := by
  have h := checks_parseSnapshot page
  cases hs : parseSnapshot page with
  | ok s =>
    rw [hs] at h
    exact Or.inr ⟨s, rfl, h⟩
  | error e =>
    rw [hs] at h
    cases e with
    | valueError message => exact Or.inl ⟨message, rfl⟩
    | indexError => exact h.elim
    | keyError key => exact h.elim

namespace Sample

def element (tag text : String) : List Event := [.startTag tag [], .data text, .endTag tag]

def tableRow (tag : String) (cells : List String) : List Event :=
  .startTag "tr" [] :: cells.flatMap (element tag) ++ [.endTag "tr"]

/-- The road network, with a paragraph that is dropped by the table in it, and the motorways. -/
def roadPage : List Event :=
  element "h2" "Prezzi rete\n stradale" ++
    element "p" "Medie dei prezzi in modalità Self - Aggiornamento 24-09-2026" ++
    .startTag "p" [] :: .startTag "table" [] ::
    (tableRow "th" ["TIPOLOGIA", "OGGI", "IERI", "DIFFERENZA"] ++
      tableRow "td" ["Benzina", "2.154", "2.155", "-0.001"] ++
      tableRow "td" ["Gasolio", "2,338", "2,340", "-0,002"]) ++
    [.endTag "table", .endTag "p"] ++ element "h2" "Prezzi rete autostradale"

end Sample

example : parseSnapshot Sample.roadPage = .ok (Sample.snapshot 20720) := by decide +kernel

end Averages
end FuelNear
