import CiteVyn.Lib.Markup
import CiteVyn.Lib.Scan
import CiteVyn.Text.Integers
import CiteVyn.Worker.Parser
import Mathlib.Data.List.Nodup

/-! # The page of a shared answer

`app/services/shared_answer_page.py`: the Markdown subset of an answer, its citations and
the question as HTML. The subset is read off any texts whose elements have a character, so
that the places of a text can be followed through it. -/
namespace CiteVyn.Services.SharedAnswerPage
open CiteVyn.Lib.Markup
open CiteVyn.Lib.Scan
open CiteVyn.Text
open CiteVyn.Worker (isLineEnd)

/-! ## The Markdown subset -/

section Subset
variable {G : Type} (ch : G → Char)

/-- `str.splitlines`, with what is read of the current line, last element first. -/
def splitlinesFrom : List G → List G → List (List G)
  | line, [] => if line.isEmpty then [] else [line.reverse]
  | line, [c] => if isLineEnd (ch c) then [line.reverse] else [(c :: line).reverse]
  | line, c :: d :: s =>
    if ch c = '\r' && ch d = '\n' then line.reverse :: splitlinesFrom [] s
    else if isLineEnd (ch c) then line.reverse :: splitlinesFrom [] (d :: s)
    else splitlinesFrom (c :: line) (d :: s)

def splitlines (text : List G) : List (List G) := splitlinesFrom ch [] text

/-- `str.lstrip` -/
def lstripped (s : List G) : List G := s.dropWhile fun c => isSpace (ch c)

/-- `str.strip` -/
def stripped (s : List G) : List G := ((lstripped ch s).reverse.dropWhile fun c => isSpace (ch c)).reverse

/-- `_BULLET`: the group of `^\s*[-*] (.*)$` in a line, which has no line feed. -/
def bullet (line : List G) : Option (List G) :=
  match lstripped ch line with
  | c :: d :: item => if (ch c = '-' || ch c = '*') && ch d = ' ' then some item else none
  | _ => none

/-- A part of the page: a paragraph by its lines, or a list by its items. -/
inductive Block (G : Type) where
  | para (lines : List (List G))
  | list (items : List (List G))

/-- The variables of `render_answer_html`. -/
structure Layout (G : Type) where
  parts : List (Block G)
  para : List (List G)
  items : List (List G)

def Layout.flush (s : Layout G) : Layout G where
  parts := s.parts ++ (if s.para.isEmpty then [] else [.para s.para]) ++ if s.items.isEmpty then [] else [.list s.items]
  para := []
  items := []

def Layout.line (s : Layout G) (line : List G) : Layout G :=
  if (stripped ch line).isEmpty then s.flush
  else
    match bullet ch line with
    | some item => { s with items := s.items ++ [stripped ch item] }
    | none =>
      let s := if s.items.isEmpty then s else s.flush
      { s with para := s.para ++ [stripped ch line] }

/-- The parts of an answer. -/
def blocks (text : List G) : List (Block G) :=
  ((splitlines ch text).foldl (Layout.line ch) ⟨[], [], []⟩).flush.parts

/-- A backtick, what is no backtick, and a backtick again. -/
def codeToken : Pattern G
  | _, c :: rest =>
    let code := rest.takeWhile fun c => ch c ≠ '`'
    if ch c = '`' && !code.isEmpty && code.length < rest.length then some (code.length + 2) else none
  | _, [] => none

/-- Two asterisks come next. -/
def isStars : List G → Bool
  | c :: d :: _ => ch c = '*' && ch d = '*'
  | _ => false

/-- The length of `.+?` before two asterisks. -/
def boldLength : List G → Option Nat
  | [] => none
  | c :: rest =>
    if ch c = '\n' then none else if isStars ch rest then some 1 else (boldLength rest).map (· + 1)

def boldToken : Pattern G := fun _ s =>
  if isStars ch s then (boldLength ch (s.drop 2)).map (· + 4) else none

/-- `_MARKER` -/
def markerToken : Pattern G
  | _, c :: rest =>
    let digits := rest.takeWhile fun c => isAsciiDigit (ch c)
    if ch c = '[' && 1 ≤ digits.length && digits.length ≤ 3 && (rest[digits.length]?).map ch = some ']' then
      some (digits.length + 2)
    else none
  | _, [] => none

/-- `_INLINE` -/
def inlineToken : Pattern G := fun pre s =>
  (codeToken ch pre s).or ((boldToken ch pre s).or (markerToken ch pre s))

/-- What a match of `_INLINE` stands for, with its group. -/
inductive Inline (G : Type) where
  | code (s : List G)
  | bold (s : List G)
  | marker (digits : List G)

def inlineOf (w : List G) : Inline G :=
  match w.head?.map ch with
  | some '`' => .code w.tail.dropLast
  | some '*' => .bold (w.drop 2).dropLast.dropLast
  | _ => .marker w.tail.dropLast

end Subset

/-! ## The answer -/

def markerNumber (digits : Str) : Nat := digitsValue digits

/-- The text of a small number. -/
def natText (n : Nat) : Str := Nat.toDigits 10 n

def markerLink (digits : Str) (markers : List Int) : Str :=
  let n := markerNumber digits
  if (n : Int) ∈ markers then
    "<a class=\"share-marker\" href=\"#source-".toList ++ natText n ++ "\">[".toList ++ natText n ++ "]</a>".toList
  else escape ('[' :: digits ++ [']'])

/-- The text inside `**` and `**`. -/
def boldHtml (markers : List Int) (bold : Str) : Str :=
  (pieces (markerToken id) bold).flatMap fun
    | .gap c => escape [c]
    | .hit w => markerLink w.tail.dropLast markers

/-- `_inline` -/
def inline (text : Str) (markers : List Int) : Str :=
  (pieces (inlineToken id) text).flatMap fun
    | .gap c => escape [c]
    | .hit w =>
      match inlineOf id w with
      | .code s => "<code>".toList ++ escape s ++ "</code>".toList
      | .bold s => "<strong>".toList ++ boldHtml markers s ++ "</strong>".toList
      | .marker digits => markerLink digits markers

def Block.html (markers : List Int) : Block Char → Str
  | .para lines => "<p>".toList ++ inline ([' '].intercalate lines) markers ++ "</p>".toList
  | .list items =>
    "<ul>".toList ++ (items.flatMap fun i => "<li>".toList ++ inline i markers ++ "</li>".toList) ++ "</ul>".toList

def renderAnswerHtml (text : Str) (markers : List Int) : Str := (blocks id text).flatMap (Block.html markers)

/-! ## The sources -/

/-- What `urlsplit` checks of a network location (brackets, and what NFKC makes of it)
depends on the version of Python and its Unicode data. -/
structure Urls where
  netlocAllowed : Str → Bool

/-- The part of `urlsplit`'s result that is read. -/
structure SplitResult where
  scheme : Str
  netloc : Str

def isSchemeChar (c : Char) : Bool :=
  isLowerAscii c || isUpperAscii c || isAsciiDigit c || c == '+' || c == '-' || c == '.'

/-- `urlsplit`, nothing where it raises `ValueError`. -/
def urlsplit (u : Urls) (url : Str) : Option SplitResult :=
  let url := (url.dropWhile fun c => c.toNat ≤ 0x20).filter fun c => c ≠ '\t' && c ≠ '\r' && c ≠ '\n'
  let name := url.takeWhile (· ≠ ':')
  let isScheme := name.length < url.length && name.head?.any (fun c => isLowerAscii c || isUpperAscii c) &&
    name.all isSchemeChar
  let scheme := if isScheme then lower name else []
  let rest := if isScheme then url.drop (name.length + 1) else url
  if "//".toList.isPrefixOf rest then
    let netloc := (rest.drop 2).takeWhile fun c => c ≠ '/' && c ≠ '?' && c ≠ '#'
    if u.netlocAllowed netloc then some ⟨scheme, netloc⟩ else none
  else some ⟨scheme, []⟩

/-- `SplitResult.hostname`, empty where it is `None`. -/
def SplitResult.hostname (r : SplitResult) : Str :=
  let hostinfo := afterLast ['@'] r.netloc
  let hostname := match hostinfo.dropWhile (· ≠ '[') with
    | _ :: bracketed => bracketed.takeWhile (· ≠ ']')
    | [] => hostinfo.takeWhile (· ≠ ':')
  lower (hostname.takeWhile (· ≠ '%')) ++ hostname.dropWhile (· ≠ '%')

/-- `SplitResult.username is not None`, and so if `password` is not. -/
def SplitResult.hasUserinfo (r : SplitResult) : Bool := r.netloc.contains '@'

/-- `_safe_href` -/
def safeHref (u : Urls) (url : Value) : Option Str :=
  match url with
  | .str url =>
    if url.any isSpace then none
    else
      match urlsplit u url with
      | none => none
      | some parts =>
        if (parts.scheme ≠ "http".toList && parts.scheme ≠ "https".toList) || parts.hostname.isEmpty then none
        else if parts.hasUserinfo then none
        else some url
  | _ => none

abbrev Citation := List (Str × Value)

def Citation.get (c : Citation) (key : String) : Value := (Value.dict c).get key

/-- `_marker_of` -/
def markerOf (c : Citation) : Option Int :=
  match c.get "marker" with
  | .int n => some n
  | .str s => if 1 ≤ s.length && s.length ≤ 6 && s.all isAsciiDigit then some (digitsValue s : Nat) else none
  | _ => none

def months : List String := ["Jan", "Feb", "Mar", "Apr", "May", "Jun", "Jul", "Aug", "Sep", "Oct", "Nov", "Dec"]

/-- `format_day` -/
def formatDay (iso : Str) : Str :=
  let year := iso.take 4
  let month := (iso.drop 5).take 2
  let day := (iso.drop 8).take 2
  let m := digitsValue month
  if iso.length = 10 && (year ++ month ++ day).all isDecimal && iso[4]? = some '-' && iso[7]? = some '-' &&
      1 ≤ m && m ≤ 12 then
    natText (digitsValue day) ++ ' ' :: (months.getD (m - 1) "").toList ++ ' ' :: year
  else iso

/-- The label of a source: its title, linked if it can be. -/
def label (u : Urls) (c : Citation) (title : Str) : Str :=
  match safeHref u (c.get "url") with
  | some href =>
    "<a href=\"".toList ++ escape href ++ "\" rel=\"noopener noreferrer\">".toList ++ escape title ++ "</a>".toList
  | none => escape title

/-- The day of a source. -/
def date (c : Citation) : Str :=
  match c.get "docs_as_of" with
  | .str asOf => " — docs as of ".toList ++ escape (formatDay asOf)
  | _ => []

/-- `str(c.get("title") or "Source")` -/
def titleOf (p : Printing) (c : Citation) : Option Str :=
  if (c.get "title").truthy then pyStr p (c.get "title") else some "Source".toList

/-- The rows of `_sources`, with the markers that are seen; nothing where `str` raises. -/
def rows (u : Urls) (p : Printing) : List Int → List Citation → Option (List Str)
  | _, [] => some []
  | seen, c :: cs => do
    let title ← titleOf p c
    let content := label u c title ++ date c
    match markerOf c with
    | some marker =>
      if marker ∈ seen then
        return ("<li>".toList ++ content ++ "</li>".toList) :: (← rows u p seen cs)
      else
        let number ← intStr marker
        let row := "<li id=\"source-".toList ++ number ++ "\">[".toList ++ number ++ "] ".toList ++ content ++
          "</li>".toList
        return row :: (← rows u p (marker :: seen) cs)
    | none => return ("<li>".toList ++ content ++ "</li>".toList) :: (← rows u p seen cs)

/-- `_sources` -/
def sources (u : Urls) (p : Printing) (citations : List Citation) : Option Str :=
  (rows u p [] citations).map fun rows =>
    if rows.isEmpty then [] else "<ol class=\"share-sources\">".toList ++ rows.flatten ++ "</ol>".toList

/-! ## The page -/

/-- `str.split`, with what is read of the current word, last character first. -/
def splitFrom : Str → Str → List Str
  | word, [] => if word.isEmpty then [] else [word.reverse]
  | word, c :: s =>
    if isSpace c then (if word.isEmpty then [] else [word.reverse]) ++ splitFrom [] s else splitFrom (c :: word) s

/-- `markers` of the page. -/
def markersOf (citations : List Citation) : List Int := citations.filterMap markerOf

/-- `as_of` of `render_shared_answer_page`, less the blanks around it. -/
def asOfHtml : Option Str → Str
  | some day => if day.isEmpty then [] else "Docs as of ".toList ++ escape (formatDay day) ++ ".".toList
  | none => []

/-- `main` of `render_shared_answer_page`. -/
def mainHtml (u : Urls) (p : Printing) (question answer : Str) (citations : List Citation) (docsAsOf : Option Str) :
    Option Str :=
  (sources u p citations).map fun sources =>
    let asOf := asOfHtml docsAsOf
    "<section class=\"about-doc\">".toList ++ "<h2>Question</h2>".toList ++
      "<p>".toList ++ escape ([' '].intercalate (splitFrom [] question)) ++ "</p>".toList ++
      "<h2>Answer</h2>".toList ++ renderAnswerHtml answer (markersOf citations) ++
      "<h2>Sources</h2>".toList ++ sources ++
      (if asOf.isEmpty then [] else "<p>".toList ++ asOf ++ "</p>".toList) ++ "</section>\n".toList

/-! ## The tags of the page -/

/-- The text of a number. -/
def intText (n : Int) : Str := if n < 0 then '-' :: natText n.natAbs else natText n.natAbs

/-- `#source-N` -/
def sourceHref (n : Int) : Str := "#source-".toList ++ intText n

/-- `source-N` -/
def sourceId (n : Int) : Str := "source-".toList ++ intText n

def markerTokens (digits : Str) (markers : List Int) : List Token :=
  let n := markerNumber digits
  if (n : Int) ∈ markers then
    element "a".toList [("class".toList, "share-marker".toList), ("href".toList, sourceHref n)]
      [.text ('[' :: natText n ++ [']'])]
  else [.text ('[' :: digits ++ [']'])]

def boldTokens (markers : List Int) (bold : Str) : List Token :=
  (pieces (markerToken id) bold).flatMap fun
    | .gap c => [.text [c]]
    | .hit w => markerTokens w.tail.dropLast markers

def inlineTokens (text : Str) (markers : List Int) : List Token :=
  (pieces (inlineToken id) text).flatMap fun
    | .gap c => [.text [c]]
    | .hit w =>
      match inlineOf id w with
      | .code s => element "code".toList [] [.text s]
      | .bold s => element "strong".toList [] (boldTokens markers s)
      | .marker digits => markerTokens digits markers

def Block.tokens (markers : List Int) : Block Char → List Token
  | .para lines => element "p".toList [] (inlineTokens ([' '].intercalate lines) markers)
  | .list items =>
    element "ul".toList [] (items.flatMap fun i => element "li".toList [] (inlineTokens i markers))

/-- The tags and the texts of an answer. -/
def answerTokens (text : Str) (markers : List Int) : List Token := (blocks id text).flatMap (Block.tokens markers)

theorem entity_digit {c : Char} (h : c.isDigit = true) : entity c = none := by
  rcases entity_cases c with rfl | rfl | rfl | rfl | rfl | hc
  · cases h
  · cases h
  · cases h
  · cases h
  · cases h
  · exact hc

theorem escape_natText (n : Nat) : escape (natText n) = natText n :=
  escape_of_plain fun _ hc => entity_digit (isDigit_toDigits hc)

theorem escape_intText (n : Int) : escape (intText n) = intText n := by
  unfold intText
  split
  · rw [← List.singleton_append, escape_append, escape_natText]
    rfl
  · exact escape_natText _

theorem intText_natCast (n : Nat) : intText n = natText n := by
  unfold intText
  rw [if_neg (by omega), Int.natAbs_natCast]

theorem escape_sourceHref (n : Int) : escape (sourceHref n) = sourceHref n := by
  have hsource : escape "#source-".toList = "#source-".toList := by decide +kernel
  unfold sourceHref
  rw [escape_append, hsource, escape_intText]

theorem write_markerTokens (digits : Str) (markers : List Int) :
    write (markerTokens digits markers) = markerLink digits markers := by
  have hclass : escape "share-marker".toList = "share-marker".toList := by decide +kernel
  have hbracket (s : Text) : escape ('[' :: s ++ [']']) = '[' :: escape s ++ [']'] := by
    rw [← List.singleton_append, escape_append, escape_append]
    rfl
  unfold markerTokens markerLink
  dsimp only
  by_cases h : (markerNumber digits : Int) ∈ markers
  · rw [if_pos h, if_pos h, write_element, write_start_two, hclass, write_stop, write_text, hbracket,
      escape_natText, escape_sourceHref]
    unfold sourceHref
    rw [intText_natCast]
    simp only [String.reduceToList, List.append_assoc, List.cons_append, List.nil_append]
  · rw [if_neg h, if_neg h, write_text]

/-- A gap of one character or a match, on either side. -/
theorem write_pieces {f : Piece Char → Str} {g : Piece Char → List Token} (ps : List (Piece Char))
    (h : ∀ piece, write (g piece) = f piece) : write (ps.flatMap g) = ps.flatMap f := by
  rw [write_flatMap]
  exact congrArg (ps.flatMap ·) (funext h)

theorem write_boldTokens (markers : List Int) (bold : Str) : write (boldTokens markers bold) = boldHtml markers bold := by
  refine write_pieces _ fun piece => ?_
  cases piece with
  | gap c => exact List.append_nil _
  | hit w => exact write_markerTokens _ _

theorem write_inlineTokens (text : Str) (markers : List Int) : write (inlineTokens text markers) = inline text markers := by
  refine write_pieces _ fun piece => ?_
  cases piece with
  | gap c => exact List.append_nil _
  | hit w =>
    dsimp only
    cases inlineOf id w with
    | code s =>
      dsimp only
      rw [write_plain, write_text]
      simp only [String.reduceToList, List.append_assoc, List.cons_append, List.nil_append]
    | bold s =>
      dsimp only
      rw [write_plain, write_boldTokens]
      simp only [String.reduceToList, List.append_assoc, List.cons_append, List.nil_append]
    | marker digits => exact write_markerTokens _ _

theorem write_blockTokens (markers : List Int) (b : Block Char) : write (b.tokens markers) = b.html markers := by
  cases b with
  | para lines =>
    unfold Block.tokens Block.html
    rw [write_plain, write_inlineTokens]
    simp only [String.reduceToList, List.append_assoc, List.cons_append, List.nil_append]
  | list items =>
    have hitem (i : Str) : write (element "li".toList [] (inlineTokens i markers)) =
        "<li>".toList ++ inline i markers ++ "</li>".toList := by
      rw [write_plain, write_inlineTokens]
      simp only [String.reduceToList, List.append_assoc, List.cons_append, List.nil_append]
    unfold Block.tokens Block.html
    rw [write_plain, write_flatMap, funext hitem]
    simp only [String.reduceToList, List.append_assoc, List.cons_append, List.nil_append]

theorem write_answerTokens (text : Str) (markers : List Int) :
    write (answerTokens text markers) = renderAnswerHtml text markers := by
  unfold answerTokens renderAnswerHtml
  rw [write_flatMap]
  exact congrArg ((blocks id text).flatMap ·) (funext (write_blockTokens markers))

/-! ## Fragments -/

def fragmentTags : List Text := ["p", "ul", "ol", "li", "code", "strong", "a"].map String.toList

/-- A row of tokens that is closed in order and has the tags of the subset, with links and
ids of two kinds. -/
structure Fragment (href id : Text → Prop) (ts : List Token) : Prop where
  balanced : Balanced ts
  named : ∀ t ∈ ts, t.Named
  tags : ∀ tag ∈ tags ts, tag ∈ fragmentTags
  hrefs : ∀ v ∈ values "href".toList ts, href v
  ids : ∀ v ∈ values "id".toList ts, id v

variable {href id' : Text → Prop}

theorem Fragment.nil : Fragment href id' [] where
  balanced := balanced_nil
  named _ h := by cases h
  tags _ h := by cases h
  hrefs _ h := by cases h
  ids _ h := by cases h

theorem Fragment.text (s : Text) : Fragment href id' [.text s] where
  balanced := balanced_text s
  named := List.forall_mem_singleton.mpr trivial
  tags _ h := by cases h
  hrefs _ h := by cases h
  ids _ h := by cases h

theorem Fragment.append {ts us : List Token} (hts : Fragment href id' ts) (hus : Fragment href id' us) :
    Fragment href id' (ts ++ us) where
  balanced := hts.balanced.append hus.balanced
  named := List.forall_mem_append.mpr ⟨hts.named, hus.named⟩
  tags := by
    rw [tags_append]
    exact List.forall_mem_append.mpr ⟨hts.tags, hus.tags⟩
  hrefs := by
    rw [values_append]
    exact List.forall_mem_append.mpr ⟨hts.hrefs, hus.hrefs⟩
  ids := by
    rw [values_append]
    exact List.forall_mem_append.mpr ⟨hts.ids, hus.ids⟩

theorem Fragment.flatMap {A : Type} {f : A → List Token} {l : List A} (h : ∀ a ∈ l, Fragment href id' (f a)) :
    Fragment href id' (l.flatMap f) := by
  induction l with
  | nil => exact Fragment.nil
  | cons a l ih =>
    obtain ⟨ha, hl⟩ := List.forall_mem_cons.mp h
    rw [List.flatMap_cons]
    exact ha.append (ih hl)

theorem verbatim_fragmentTags : ∀ tag ∈ fragmentTags, Verbatim tag := by decide +kernel

theorem Fragment.element {ts : List Token} {tag : Text} {attributes : List (Text × Text)} (h : Fragment href id' ts)
    (htag : tag ∈ fragmentTags) (hnames : ∀ a ∈ attributes, Verbatim a.1)
    (hhrefs : ∀ v ∈ (Token.start tag attributes).values "href".toList, href v)
    (hids : ∀ v ∈ (Token.start tag attributes).values "id".toList, id' v) :
    Fragment href id' (element tag attributes ts) where
  balanced := h.balanced.element tag attributes
  named := named_element (verbatim_fragmentTags tag htag) hnames h.named
  tags := by
    rw [tags_element]
    exact List.forall_mem_append.mpr ⟨List.forall_mem_cons.mpr ⟨htag, h.tags⟩, List.forall_mem_singleton.mpr htag⟩
  hrefs := by
    rw [values_element]
    exact List.forall_mem_append.mpr ⟨hhrefs, h.hrefs⟩
  ids := by
    rw [values_element]
    exact List.forall_mem_append.mpr ⟨hids, h.ids⟩

/-- An element without attributes. -/
theorem Fragment.plain {ts : List Token} (h : Fragment href id' ts) (tag : Text) (htag : tag ∈ fragmentTags) :
    Fragment href id' (Lib.Markup.element tag [] ts) :=
  h.element htag (fun _ ha => by cases ha) (fun _ hv => by cases hv) fun _ hv => by cases hv

/-! ## The answer is a fragment -/

/-- The link of a marker. -/
def Linked (markers : List Int) (v : Text) : Prop := ∃ n ∈ markers, v = sourceHref n

theorem fragment_marker (digits : Str) (markers : List Int) :
    Fragment (Linked markers) (fun _ => False) (markerTokens digits markers) := by
  unfold markerTokens
  dsimp only
  by_cases h : (markerNumber digits : Int) ∈ markers
  · rw [if_pos h]
    refine (Fragment.text _).element (by decide +kernel) ?_ ?_ ?_
    · have hclass : Verbatim "class".toList := by decide +kernel
      have hhref : Verbatim "href".toList := by decide +kernel
      exact List.forall_mem_cons.mpr ⟨hclass, List.forall_mem_singleton.mpr hhref⟩
    · rw [values_start, if_neg (by decide +kernel), values_start, if_pos rfl]
      exact List.forall_mem_singleton.mpr ⟨_, h, rfl⟩
    · rw [values_start, if_neg (by decide +kernel), values_start, if_neg (by decide +kernel)]
      exact fun _ hv => by cases hv
  · rw [if_neg h]
    exact Fragment.text _

theorem fragment_bold (markers : List Int) (bold : Str) :
    Fragment (Linked markers) (fun _ => False) (boldTokens markers bold) := by
  refine Fragment.flatMap fun piece _ => ?_
  cases piece with
  | gap c => exact Fragment.text _
  | hit w => exact fragment_marker _ _

theorem fragment_inline (text : Str) (markers : List Int) :
    Fragment (Linked markers) (fun _ => False) (inlineTokens text markers) := by
  refine Fragment.flatMap fun piece _ => ?_
  cases piece with
  | gap c => exact Fragment.text _
  | hit w =>
    dsimp only
    cases inlineOf id w with
    | code s => exact (Fragment.text s).plain "code".toList (by decide +kernel)
    | bold s => exact (fragment_bold markers s).plain "strong".toList (by decide +kernel)
    | marker digits => exact fragment_marker _ _

theorem fragment_block (markers : List Int) (b : Block Char) :
    Fragment (Linked markers) (fun _ => False) (b.tokens markers) := by
  cases b with
  | para lines => exact (fragment_inline _ _).plain "p".toList (by decide +kernel)
  | list items =>
    have hitem (i : Str) := (fragment_inline i markers).plain "li".toList (by decide +kernel)
    exact (Fragment.flatMap fun i _ => hitem i).plain "ul".toList (by decide +kernel)

theorem fragment_answer (text : Str) (markers : List Int) :
    Fragment (Linked markers) (fun _ => False) (answerTokens text markers) :=
  Fragment.flatMap fun b _ => fragment_block markers b

/-! ## The sources are a fragment -/

/-- A URL of the citations that `_safe_href` accepts. -/
def Accepted (u : Urls) (citations : List Citation) (v : Text) : Prop :=
  ∃ c ∈ citations, safeHref u (c.get "url") = some v

def labelTokens (u : Urls) (c : Citation) (title : Str) : List Token :=
  match safeHref u (c.get "url") with
  | some href =>
    element "a".toList [("href".toList, href), ("rel".toList, "noopener noreferrer".toList)] [.text title]
  | none => [.text title]

def dateTokens (c : Citation) : List Token :=
  match c.get "docs_as_of" with
  | .str asOf => [.text (" — docs as of ".toList ++ formatDay asOf)]
  | _ => []

def rowTokens (u : Urls) (c : Citation) (title : Str) : List Token := labelTokens u c title ++ dateTokens c

theorem write_rowTokens (u : Urls) (c : Citation) (title : Str) :
    write (rowTokens u c title) = label u c title ++ date c := by
  have hlabel : write (labelTokens u c title) = label u c title := by
    unfold labelTokens label
    cases safeHref u (c.get "url") with
    | none => exact write_text _
    | some href =>
      have hrel : escape "noopener noreferrer".toList = "noopener noreferrer".toList := by decide +kernel
      dsimp only
      rw [write_element, write_start_two, hrel, write_text, write_stop]
      simp only [String.reduceToList, List.append_assoc, List.cons_append, List.nil_append]
  have hdate : write (dateTokens c) = date c := by
    unfold dateTokens date
    split
    · have hasOf : escape " — docs as of ".toList = " — docs as of ".toList := by decide +kernel
      rw [write_text, escape_append, hasOf]
    · rfl
  rw [rowTokens, write_append, hlabel, hdate]

theorem fragment_row {id' : Text → Prop} (u : Urls) {c : Citation} {citations : List Citation} (hc : c ∈ citations)
    (title : Str) : Fragment (Accepted u citations) id' (rowTokens u c title) := by
  refine Fragment.append ?_ ?_
  · unfold labelTokens
    cases hhref : safeHref u (c.get "url") with
    | none => exact Fragment.text _
    | some href =>
      refine (Fragment.text _).element (by decide +kernel) ?_ ?_ ?_
      · have hname : Verbatim "href".toList := by decide +kernel
        have hrel : Verbatim "rel".toList := by decide +kernel
        exact List.forall_mem_cons.mpr ⟨hname, List.forall_mem_singleton.mpr hrel⟩
      · rw [values_start, if_pos rfl, values_start, if_neg (by decide +kernel)]
        exact List.forall_mem_singleton.mpr ⟨c, hc, hhref⟩
      · rw [values_start, if_neg (by decide +kernel), values_start, if_neg (by decide +kernel)]
        exact fun _ hv => by cases hv
  · unfold dateTokens
    split
    · exact Fragment.text _
    · exact Fragment.nil

theorem values_rowTokens (u : Urls) (c : Citation) (title : Str) : values "id".toList (rowTokens u c title) = [] := by
  have h : Fragment (Accepted u [c]) (fun _ => False) (rowTokens u c title) := fragment_row u List.mem_cons_self title
  exact List.eq_nil_iff_forall_not_mem.mpr h.ids

/-- The markers that are not seen yet, each once, as the rows number them. -/
def newMarkers : List Int → List Citation → List Int
  | _, [] => []
  | seen, c :: cs =>
    match markerOf c with
    | some m => if m ∈ seen then newMarkers seen cs else m :: newMarkers (m :: seen) cs
    | none => newMarkers seen cs

theorem newMarkers_nodup (cs : List Citation) : ∀ seen, (newMarkers seen cs).Nodup ∧ ∀ m ∈ newMarkers seen cs, m ∉ seen := by
  induction cs with
  | nil =>
    intro seen
    exact ⟨List.nodup_nil, fun _ h => by cases h⟩
  | cons c cs ih =>
    intro seen
    unfold newMarkers
    split
    · rename_i m hm
      by_cases hseen : m ∈ seen
      · rw [if_pos hseen]
        exact ih seen
      · rw [if_neg hseen]
        obtain ⟨hnodup, hfresh⟩ := ih (m :: seen)
        refine ⟨List.nodup_cons.mpr ⟨fun h => hfresh m h List.mem_cons_self, hnodup⟩, ?_⟩
        exact List.forall_mem_cons.mpr ⟨hseen, fun k hk h => hfresh k hk (List.mem_cons_of_mem _ h)⟩
    · exact ih seen

theorem mem_newMarkers {cs : List Citation} {m : Int} (h : m ∈ markersOf cs) :
    ∀ seen, m ∉ seen → m ∈ newMarkers seen cs := by
  induction cs with
  | nil => cases h
  | cons c cs ih =>
    intro seen hseen
    unfold newMarkers
    unfold markersOf at h ih
    cases hc : markerOf c with
    | none =>
      rw [List.filterMap_cons_none hc] at h
      exact ih h seen hseen
    | some k =>
      rw [List.filterMap_cons_some hc] at h
      dsimp only
      by_cases heq : m = k
      · subst heq
        rw [if_neg hseen]
        exact List.mem_cons_self
      · have hm := (List.mem_cons.mp h).resolve_left heq
        by_cases hk : k ∈ seen
        · rw [if_pos hk]
          exact ih hm seen hseen
        · rw [if_neg hk]
          exact List.mem_cons_of_mem _ (ih hm _ fun hmem => hseen ((List.mem_cons.mp hmem).resolve_left heq))

theorem intStr_eq {n : Int} {s : Str} (h : intStr n = some s) : s = intText n := by
  unfold intStr at h
  dsimp only at h
  split at h
  · cases h
  · exact (Option.some.inj h).symm

/-- A row of the list, with its id or without. -/
theorem write_item (ts : List Token) :
    write (element "li".toList [] ts) = "<li>".toList ++ write ts ++ "</li>".toList := by
  rw [write_plain]
  simp only [String.reduceToList, List.append_assoc, List.cons_append, List.nil_append]

theorem write_numbered (m : Int) (ts : List Token) :
    write (element "li".toList [("id".toList, sourceId m)] (.text ('[' :: intText m ++ [']', ' ']) :: ts)) =
      "<li id=\"source-".toList ++ intText m ++ "\">[".toList ++ intText m ++ "] ".toList ++ write ts ++
        "</li>".toList := by
  have hid : escape (sourceId m) = sourceId m := by
    have hsource : escape "source-".toList = "source-".toList := by decide +kernel
    unfold sourceId
    rw [escape_append, hsource, escape_intText]
  have hnumber : escape ('[' :: intText m ++ [']', ' ']) = '[' :: intText m ++ [']', ' '] := by
    rw [← List.singleton_append, escape_append, escape_append, escape_intText]
    rfl
  rw [write_element, write_start_one, hid, write_cons, Token.write, hnumber, write_stop]
  unfold sourceId
  simp only [String.reduceToList, List.append_assoc, List.cons_append, List.nil_append]

/-- What the rows are written from. -/
structure Rows (u : Urls) (citations : List Citation) (markers : List Int) (written : Str) (ts : List Token) : Prop where
  written : written = write ts
  fragment : Fragment (Accepted u citations) (fun _ => True) ts
  ids : values "id".toList ts = markers.map sourceId

theorem Rows.plain {u : Urls} {citations : List Citation} {markers : List Int} {written : Str} {ts : List Token}
    (h : Rows u citations markers written ts) {c : Citation} (hc : c ∈ citations) (title : Str) :
    Rows u citations markers ("<li>".toList ++ (label u c title ++ date c) ++ "</li>".toList ++ written)
      (element "li".toList [] (rowTokens u c title) ++ ts) where
  written := by rw [write_append, write_item, write_rowTokens, h.written]
  fragment := ((fragment_row u hc title).plain "li".toList (by decide +kernel)).append h.fragment
  ids := by
    rw [values_append, values_element, values_rowTokens, h.ids]
    rfl

theorem Rows.numbered {u : Urls} {citations : List Citation} {markers : List Int} {written : Str} {ts : List Token}
    (h : Rows u citations markers written ts) {c : Citation} (hc : c ∈ citations) (title : Str) (m : Int) :
    Rows u citations (m :: markers)
      ("<li id=\"source-".toList ++ intText m ++ "\">[".toList ++ intText m ++ "] ".toList ++ (label u c title ++ date c) ++
        "</li>".toList ++ written)
      (element "li".toList [("id".toList, sourceId m)] (.text ('[' :: intText m ++ [']', ' ']) :: rowTokens u c title) ++
        ts) where
  written := by rw [write_append, write_numbered, write_rowTokens, h.written]
  fragment := by
    have htext : Fragment (Accepted u citations) (fun _ => True) [.text ('[' :: intText m ++ [']', ' '])] := Fragment.text _
    have hid : Verbatim "id".toList := by decide +kernel
    refine ((htext.append (fragment_row u hc title)).element (by decide +kernel) (List.forall_mem_singleton.mpr hid) ?_
      fun _ _ => trivial).append h.fragment
    rw [values_start, if_neg (by decide +kernel)]
    exact fun _ hv => by cases hv
  ids := by
    have htext : values "id".toList (.text ('[' :: intText m ++ [']', ' ']) :: rowTokens u c title) = [] :=
      values_rowTokens u c title
    rw [values_append, values_element, htext, h.ids, values_start, if_pos rfl]
    rfl

/-- The rows number the markers that are new to them. -/
theorem rows_tokens (u : Urls) (p : Printing) {citations : List Citation} (cs : List Citation) :
    ∀ seen rs, cs ⊆ citations → rows u p seen cs = some rs →
      ∃ ts, Rows u citations (newMarkers seen cs) rs.flatten ts := by
  induction cs with
  | nil =>
    intro seen rs _ h
    cases h
    exact ⟨[], rfl, Fragment.nil, rfl⟩
  | cons c cs ih =>
    intro seen rs hsub h
    obtain ⟨hc, hcs⟩ := List.cons_subset.mp hsub
    unfold rows at h
    obtain ⟨title, -, h⟩ := Option.bind_eq_some_iff.mp h
    unfold newMarkers
    cases hm : markerOf c with
    | none =>
      rw [hm] at h
      obtain ⟨rest, hrest, h⟩ := Option.bind_eq_some_iff.mp h
      cases h
      obtain ⟨ts, hts⟩ := ih seen rest hcs hrest
      exact ⟨_, hts.plain hc title⟩
    | some m =>
      rw [hm] at h
      dsimp only at h ⊢
      by_cases hseen : m ∈ seen
      · rw [if_pos hseen] at h ⊢
        obtain ⟨rest, hrest, h⟩ := Option.bind_eq_some_iff.mp h
        cases h
        obtain ⟨ts, hts⟩ := ih seen rest hcs hrest
        exact ⟨_, hts.plain hc title⟩
      · rw [if_neg hseen] at h ⊢
        obtain ⟨number, hnumber, h⟩ := Option.bind_eq_some_iff.mp h
        obtain ⟨rest, hrest, h⟩ := Option.bind_eq_some_iff.mp h
        cases h
        rw [intStr_eq hnumber]
        obtain ⟨ts, hts⟩ := ih (m :: seen) rest hcs hrest
        exact ⟨_, hts.numbered hc title m⟩

theorem sources_tokens {u : Urls} {p : Printing} {citations : List Citation} {written : Str}
    (h : sources u p citations = some written) : ∃ ts, Rows u citations (newMarkers [] citations) written ts := by
  obtain ⟨rs, hrs, rfl⟩ := Option.map_eq_some_iff.mp h
  obtain ⟨ts, hts⟩ := rows_tokens u p citations [] rs (List.Subset.refl _) hrs
  by_cases hempty : rs.isEmpty
  · rw [if_pos hempty]
    rw [List.isEmpty_iff.mp hempty] at hts
    exact ⟨ts, hts⟩
  · rw [if_neg hempty]
    refine ⟨element "ol".toList [("class".toList, "share-sources".toList)] ts, ?_, ?_, ?_⟩
    · have hclass : escape "share-sources".toList = "share-sources".toList := by decide +kernel
      rw [write_element, write_start_one, hclass, write_stop, ← hts.written]
      simp only [String.reduceToList, List.cons_append, List.nil_append]
    · have hclass : Verbatim "class".toList := by decide +kernel
      refine hts.fragment.element (by decide +kernel) (List.forall_mem_singleton.mpr hclass) ?_ ?_
      · rw [values_start, if_neg (by decide +kernel)]
        exact fun _ hv => by cases hv
      · rw [values_start, if_neg (by decide +kernel)]
        exact fun _ hv => by cases hv
    · rw [values_element, values_start, if_neg (by decide +kernel), hts.ids]
      rfl

/-! ## The whole page -/

theorem intText_inj {m n : Int} (h : intText m = intText n) : m = n := by
  have hsign {k l : Nat} : '-' :: natText k ≠ natText l := by
    intro heq
    have := isDigit_toDigits (heq ▸ List.mem_cons_self : '-' ∈ natText l)
    cases this
  unfold intText at h
  split at h
  · split at h
    · have := toDigits_inj (List.cons.inj h).2
      omega
    · exact absurd h hsign
  · split at h
    · exact absurd h.symm hsign
    · have := toDigits_inj h
      omega

theorem sourceId_inj : Function.Injective sourceId := fun _ _ h => intText_inj (List.append_cancel_left h)

theorem colon_of_safeHref {u : Urls} {value : Value} {url : Str} (h : safeHref u value = some url) : ':' ∈ url := by
  unfold safeHref at h
  split at h
  · rename_i url'
    split at h
    · cases h
    split at h
    · cases h
    · rename_i parts hparts
      by_contra hcolon
      have hurl : ':' ∉ url' := by
        intro hmem
        split at h
        · cases h
        split at h
        · cases h
        · exact hcolon (Option.some.inj h ▸ hmem)
      have hscheme : parts.scheme = [] := by
        have hname (s : Str) (hs : ':' ∉ s) : (s.takeWhile (· ≠ ':')).length = s.length := by
          have hne (c : Char) (hc : c ∈ s) : decide (c ≠ ':') = true := decide_eq_true fun heq => hs (heq ▸ hc)
          rw [List.takeWhile_eq_self_iff.mpr hne]
        have hmem : ':' ∉ (url'.dropWhile fun c => c.toNat ≤ 0x20).filter fun c => c ≠ '\t' && c ≠ '\r' && c ≠ '\n' :=
          fun hmem => hurl ((List.dropWhile_sublist _).subset (List.mem_filter.mp hmem).1)
        unfold urlsplit at hparts
        simp only [hname _ hmem, lt_self_iff_false, decide_false, Bool.false_and, Bool.false_eq_true, if_false] at hparts
        split at hparts
        · split at hparts
          · cases hparts
            rfl
          · cases hparts
        · cases hparts
          rfl
      rw [hscheme, if_pos (by simp)] at h
      cases h
  · cases h

theorem colon_not_mem_sourceHref (n : Int) : ':' ∉ sourceHref n := by
  have hdigits (k : Nat) : ':' ∉ natText k := fun h => by cases isDigit_toDigits h
  intro h
  unfold sourceHref at h
  rcases List.mem_append.mp h with h | h
  · exact absurd h (by decide +kernel)
  · unfold intText at h
    split at h
    · rcases List.mem_cons.mp h with h | h
      · cases h
      · exact hdigits _ h
    · exact hdigits _ h

/-- The day of the page. -/
def asOfText : Option Str → Str
  | some day => if day.isEmpty then [] else "Docs as of ".toList ++ formatDay day ++ ".".toList
  | none => []

def pageTokens (question : Str) (docsAsOf : Option Str) (answer sources : List Token) : List Token :=
  element "section".toList [("class".toList, "about-doc".toList)]
    (element "h2".toList [] [.text "Question".toList] ++
      element "p".toList [] [.text ([' '].intercalate (splitFrom [] question))] ++
      element "h2".toList [] [.text "Answer".toList] ++ answer ++
      element "h2".toList [] [.text "Sources".toList] ++ sources ++
      if (asOfText docsAsOf).isEmpty then [] else element "p".toList [] [.text (asOfText docsAsOf)]) ++ [.text ['\n']]

/-- The text is what the tokens write, its tags are closed in order, and a reader finds the
tags and the characters of the tokens in it, and nothing else. -/
structure Spells (s : Str) (ts : List Token) : Prop where
  written : s = write ts
  closed : WellFormed ts
  reads : Lib.Markup.read .text s = some (marks ts)

theorem Fragment.spells {ts : List Token} (h : Fragment href id' ts) : Spells (write ts) ts where
  written := rfl
  closed := h.balanced.wellFormed
  reads := read_write h.named

theorem write_pageTokens (question : Str) (docsAsOf : Option Str) (answer sources : List Token) :
    write (pageTokens question docsAsOf answer sources) =
      "<section class=\"about-doc\">".toList ++ "<h2>Question</h2>".toList ++
        "<p>".toList ++ escape ([' '].intercalate (splitFrom [] question)) ++ "</p>".toList ++
        "<h2>Answer</h2>".toList ++ write answer ++ "<h2>Sources</h2>".toList ++ write sources ++
        (if (asOfText docsAsOf).isEmpty then [] else "<p>".toList ++ escape (asOfText docsAsOf) ++ "</p>".toList) ++
        "</section>\n".toList := by
  have hstart : (Token.start "section".toList [("class".toList, "about-doc".toList)]).write =
      "<section class=\"about-doc\">".toList := by decide +kernel
  have hend (s : Text) : s ++ (Token.stop "section".toList).write ++ write [.text ['\n']] = s ++ "</section>\n".toList := by
    rw [List.append_assoc]
    exact congrArg (s ++ ·) (by decide +kernel)
  have hquestion : write (element "h2".toList [] [.text "Question".toList]) = "<h2>Question</h2>".toList := by
    decide +kernel
  have hanswer : write (element "h2".toList [] [.text "Answer".toList]) = "<h2>Answer</h2>".toList := by decide +kernel
  have hsources : write (element "h2".toList [] [.text "Sources".toList]) = "<h2>Sources</h2>".toList := by
    decide +kernel
  have hpara (s : Text) : write (element "p".toList [] [.text s]) = "<p>".toList ++ escape s ++ "</p>".toList := by
    rw [write_plain, write_text]
    simp only [String.reduceToList, List.append_assoc, List.cons_append, List.nil_append]
  have hdate : write (if (asOfText docsAsOf).isEmpty then [] else element "p".toList [] [.text (asOfText docsAsOf)]) =
      if (asOfText docsAsOf).isEmpty then [] else "<p>".toList ++ escape (asOfText docsAsOf) ++ "</p>".toList := by
    rw [← hpara, apply_ite write, write_nil]
  unfold pageTokens
  rw [write_append, write_element, hend, hstart]
  simp only [write_append, hdate, hquestion, hanswer, hsources, hpara, List.append_assoc]

theorem isEmpty_escape (s : Text) : (escape s).isEmpty = s.isEmpty := by
  cases s with
  | nil => rfl
  | cons c s =>
    have hchar : escapeChar c ≠ [] := by
      unfold escapeChar
      cases entity c with
      | none => exact List.cons_ne_nil _ _
      | some e => exact List.cons_ne_nil _ _
    rw [escape, List.flatMap_cons, List.isEmpty_eq_false_iff.mpr (List.append_ne_nil_of_left_ne_nil hchar _)]
    rfl

theorem values_page (name question : Str) (docsAsOf : Option Str) (answer sources : List Token) (hname : name ≠ "class".toList) :
    values name (pageTokens question docsAsOf answer sources) = values name answer ++ values name sources := by
  have hplain (tag s : Text) : values name (element tag [] [.text s]) = [] := by
    rw [values_element]
    rfl
  have hdate : values name (if (asOfText docsAsOf).isEmpty then [] else element "p".toList [] [.text (asOfText docsAsOf)]) = [] := by
    rw [apply_ite (values name), hplain, values_nil, ite_self]
  unfold pageTokens
  rw [values_append, values_element, values_start, if_neg hname.symm, values_text]
  simp only [values_append, hplain, hdate, List.nil_append, List.append_nil]
  rfl

/-- The frame of the page is closed in order and may be written as it is. -/
theorem spells_page {question : Str} {docsAsOf : Option Str} {answer sources : List Token} {href id' href' id'' : Text → Prop}
    (hanswer : Fragment href id' answer) (hsources : Fragment href' id'' sources) :
    Spells (write (pageTokens question docsAsOf answer sources)) (pageTokens question docsAsOf answer sources) := by
  have hplain (tag s : Text) (h : Verbatim tag) :
      Balanced (element tag [] [.text s]) ∧ ∀ t ∈ element tag [] [.text s], t.Named :=
    ⟨(balanced_text s).element tag [], named_element h (fun _ ha => by cases ha) (List.forall_mem_singleton.mpr trivial)⟩
  have happend {ts us : List Token} (hts : Balanced ts ∧ ∀ t ∈ ts, t.Named) (hus : Balanced us ∧ ∀ t ∈ us, t.Named) :
      Balanced (ts ++ us) ∧ ∀ t ∈ ts ++ us, t.Named :=
    ⟨hts.1.append hus.1, List.forall_mem_append.mpr ⟨hts.2, hus.2⟩⟩
  have hp : Verbatim "p".toList := by decide +kernel
  have hh2 : Verbatim "h2".toList := by decide +kernel
  have hsection : Verbatim "section".toList := by decide +kernel
  have hclass : Verbatim "class".toList := by decide +kernel
  have hdate : Balanced (if (asOfText docsAsOf).isEmpty then [] else element "p".toList [] [.text (asOfText docsAsOf)]) ∧
      ∀ t ∈ (if (asOfText docsAsOf).isEmpty then [] else element "p".toList [] [.text (asOfText docsAsOf)]), t.Named := by
    split
    · exact ⟨balanced_nil, fun _ h => by cases h⟩
    · exact hplain _ _ hp
  have hinside := happend (happend (happend (happend (happend (happend (hplain _ "Question".toList hh2)
    (hplain _ ([' '].intercalate (splitFrom [] question)) hp)) (hplain _ "Answer".toList hh2))
    ⟨hanswer.balanced, hanswer.named⟩) (hplain _ "Sources".toList hh2)) ⟨hsources.balanced, hsources.named⟩) hdate
  have hpage := happend ⟨hinside.1.element "section".toList [("class".toList, "about-doc".toList)],
    named_element hsection (List.forall_mem_singleton.mpr hclass) hinside.2⟩
    ⟨balanced_text ['\n'], List.forall_mem_singleton.mpr trivial⟩
  exact ⟨rfl, hpage.1.wellFormed, read_write hpage.2⟩

theorem mainHtml_eq {u : Urls} {p : Printing} {question answer : Str} {citations : List Citation} {docsAsOf : Option Str}
    {main : Str} (h : mainHtml u p question answer citations docsAsOf = some main) :
    ∃ ts, Rows u citations (newMarkers [] citations) (write ts) ts ∧ sources u p citations = some (write ts) ∧
      main = write (pageTokens question docsAsOf (answerTokens answer (markersOf citations)) ts) := by
  obtain ⟨written, hwritten, rfl⟩ := Option.map_eq_some_iff.mp h
  obtain ⟨ts, hts⟩ := sources_tokens hwritten
  obtain rfl := hts.written
  refine ⟨ts, hts, hwritten, ?_⟩
  have hasOf : asOfHtml docsAsOf = escape (asOfText docsAsOf) := by
    have hdocs : escape "Docs as of ".toList = "Docs as of ".toList := by decide +kernel
    have hstop : escape ".".toList = ".".toList := by decide +kernel
    unfold asOfHtml asOfText
    cases docsAsOf with
    | none => rfl
    | some day =>
      dsimp only
      split
      · rfl
      · rw [escape_append, escape_append, hdocs, hstop]
  rw [write_pageTokens, write_answerTokens, hasOf]
  dsimp only
  rw [isEmpty_escape]

/-- A shared page is what its tags and texts write, and is read so. Its fragments have the
tags of the subset alone; the links of the answer are of markers of the citations, the other
links are URLs that `_safe_href` accepts, and a link to a source has exactly one target. -/
theorem shared_page (u : Urls) (p : Printing) (question answer : Str) (citations : List Citation)
    (docsAsOf : Option Str) :
    ∃ answerTokens, Spells (renderAnswerHtml answer (markersOf citations)) answerTokens ∧
      Fragment (Linked (markersOf citations)) (fun _ => False) answerTokens ∧
      ∀ main, mainHtml u p question answer citations docsAsOf = some main →
        ∃ written sourceTokens, sources u p citations = some written ∧ Spells written sourceTokens ∧
          Fragment (Accepted u citations) (fun _ => True) sourceTokens ∧
          Spells main (pageTokens question docsAsOf answerTokens sourceTokens) ∧
          ∀ n, sourceHref n ∈ values "href".toList (pageTokens question docsAsOf answerTokens sourceTokens) →
            (values "id".toList (pageTokens question docsAsOf answerTokens sourceTokens)).count (sourceId n) = 1 := by
  have hanswer := fragment_answer answer (markersOf citations)
  refine ⟨answerTokens answer (markersOf citations), write_answerTokens _ _ ▸ hanswer.spells, hanswer, fun main hmain => ?_⟩
  obtain ⟨ts, hts, hwritten, rfl⟩ := mainHtml_eq hmain
  refine ⟨write ts, ts, hwritten, hts.fragment.spells, hts.fragment, spells_page hanswer hts.fragment, fun n hn => ?_⟩
  rw [values_page _ _ _ _ _ (by decide +kernel)] at hn ⊢
  have hids : values "id".toList (answerTokens answer (markersOf citations)) = [] :=
    List.eq_nil_iff_forall_not_mem.mpr hanswer.ids
  rw [hids, List.nil_append, hts.ids]
  refine List.count_eq_one_of_mem ((newMarkers_nodup citations []).1.map sourceId_inj) (List.mem_map_of_mem ?_)
  refine mem_newMarkers ?_ [] List.not_mem_nil
  rcases List.mem_append.mp hn with hn | hn
  · obtain ⟨m, hm, heq⟩ := hanswer.hrefs _ hn
    rwa [intText_inj (List.append_cancel_left heq)]
  · obtain ⟨c, -, hc⟩ := hts.fragment.hrefs _ hn
    exact absurd (colon_of_safeHref hc) (colon_not_mem_sourceHref n)

def oneCitation : List Citation :=
  [[("marker".toList, .int 1), ("title".toList, .str "Permissions".toList), ("url".toList, .str "https://docs/p".toList),
    ("docs_as_of".toList, .str "2026-09-01".toList)]]

/-- A question and an answer with tags of their own. -/
theorem shared_page_cited : ∃ main answerTokens sourceTokens,
    mainHtml ⟨fun _ => true⟩ Printing.ascii "<b>How?".toList "See **[1]** <i>".toList oneCitation none = some main ∧
      Spells main (pageTokens "<b>How?".toList none answerTokens sourceTokens) := by
  obtain ⟨main, hmain⟩ := Option.isSome_iff_exists.mp (by decide +kernel :
    (mainHtml ⟨fun _ => true⟩ Printing.ascii "<b>How?".toList "See **[1]** <i>".toList oneCitation none).isSome = true)
  obtain ⟨answerTokens, -, -, h⟩ := shared_page ⟨fun _ => true⟩ Printing.ascii "<b>How?".toList "See **[1]** <i>".toList
    oneCitation none
  obtain ⟨_, sourceTokens, -, -, -, hspells, -⟩ := h main hmain
  exact ⟨main, answerTokens, sourceTokens, hmain, hspells⟩

end CiteVyn.Services.SharedAnswerPage
