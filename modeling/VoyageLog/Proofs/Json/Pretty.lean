import Mathlib.Tactic.Choose
import VoyageLog.Json.Pretty
import VoyageLog.Json.Value
import VoyageLog.Proofs.Json.Number

namespace VoyageLog.Json

namespace Token

-- What may follow a word.
def Ends (rest : Text) : Prop := ∀ c, rest.head? = some c → endsWord c = true

-- A text that gives these tokens and leaves what follows it.
def Reads (text : Text) (tokens : List Token) : Prop :=
  ∀ rest, Ends rest → readFrom? .between (text ++ rest) = (readFrom? .between rest).map (tokens ++ ·)

theorem readFrom?_cons (place : Place) (c : Char) (rest : Text) :
    readFrom? place (c :: rest) =
      (step? place c).bind fun (next, tokens) => (readFrom? next rest).map (tokens ++ ·) := by
  cases place <;> rfl

-- A step that gives no token.
theorem readFrom?_quietly {place next : Place} {c : Char} (h : step? place c = some (next, []))
    (rest : Text) : readFrom? place (c :: rest) = readFrom? next rest := by
  rw [readFrom?_cons, h, Option.bind_some]
  exact Option.map_id'

theorem reads_nil : Reads [] [] := by
  intro rest _
  simp

theorem Reads.append {first second : Text} {tokens others : List Token} (h : Reads first tokens)
    (hsecond : Reads second others) (hends : ∀ rest, Ends rest → Ends (second ++ rest)) :
    Reads (first ++ second) (tokens ++ others) := by
  intro rest hrest
  rw [List.append_assoc, h _ (hends rest hrest), hsecond rest hrest, Option.map_map]
  congr 1
  funext later
  simp

theorem Reads.mark {mark : Char} {token : Token} {text : Text} {tokens : List Token}
    (h : Reads text tokens) (hmark : mark? mark = some token) : Reads (mark :: text) (token :: tokens) := by
  intro rest hrest
  simp only [List.cons_append, readFrom?_cons, step?, stepBetween, hmark, Option.bind_some, h rest hrest,
    Option.map_map]
  rfl

theorem Reads.blank {blank : Char} {text : Text} {tokens : List Token} (h : Reads text tokens)
    (hblank : isBlank blank = true) : Reads (blank :: text) tokens := by
  intro rest hrest
  have hmark : mark? blank = none := by
    simp only [isBlank, Bool.or_eq_true, decide_eq_true_eq] at hblank
    rcases hblank with ((rfl | rfl) | rfl) | rfl <;> rfl
  have hquote : blank ≠ '"' := by
    rintro rfl
    cases hblank
  have hstep : step? .between blank = some (.between, []) := by simp [step?, stepBetween, hmark, hquote, hblank]
  rw [List.cons_append, readFrom?_quietly hstep, h rest hrest]

theorem Reads.newLine {text : Text} {tokens : List Token} (h : Reads text tokens) (level : Nat) :
    Reads (newLine level ++ text) tokens := by
  have hblanks : ∀ count, Reads (List.replicate count ' ' ++ text) tokens := by
    intro count
    induction count with
    | zero => exact h
    | succ count ih => exact ih.blank rfl
  exact (hblanks (2 * level)).blank rfl

-- The letters of a word gather until something ends it.
theorem read_word_on {letters : Text} (read rest : Text) (hletters : ∀ c ∈ letters, endsWord c = false)
    (hrest : Ends rest) :
    readFrom? (.word read) (letters ++ rest) =
      (readFrom? .between rest).map (word (read.reverse ++ letters) :: ·) := by
  induction letters generalizing read with
  | nil =>
    cases rest with
    | nil => simp [readFrom?]
    | cons c rest =>
      have hc := hrest c rfl
      rw [List.nil_append, readFrom?_cons, readFrom?_cons, step?, step?, if_pos hc, Option.bind_some,
        Option.bind_some, Option.map_map, List.append_nil]
      rfl
  | cons c letters ih =>
    have hc := hletters c (by simp)
    have hstep : step? (.word read) c = some (.word (c :: read), []) := by simp [step?, hc]
    rw [List.cons_append, readFrom?_quietly hstep,
      ih (c :: read) fun other hother => hletters other (by simp [hother])]
    simp

theorem reads_word {letters : Text} (hne : letters ≠ []) (hletters : ∀ c ∈ letters, endsWord c = false) :
    Reads letters [word letters] := by
  intro rest hrest
  obtain ⟨c, letters, rfl⟩ := List.exists_cons_of_ne_nil hne
  have hc := hletters c (by simp)
  simp only [endsWord, Bool.or_eq_false_iff, decide_eq_false_iff_not, Option.isSome_eq_false_iff,
    Option.isNone_iff_eq_none] at hc
  obtain ⟨⟨hmark, hquote⟩, hblank⟩ := hc
  have hstep : step? .between c = some (.word [c], []) := by simp [step?, stepBetween, hmark, hquote, hblank]
  rw [List.cons_append, readFrom?_quietly hstep]
  exact read_word_on [c] rest (fun other hother => hletters other (by simp [hother])) hrest

-- Pieces that are characters make up their text.
theorem join?_characters (content : Text) : join? (content.map .character) = some content := by
  induction content with
  | nil => rfl
  | cons c rest ih => simp [join?, ih]

-- A control character is written by its code.
theorem code_of_control {c : Char} (h : c.toNat < 32) :
    hexDigit? (Nat.digitChar (c.toNat / 16)) = some (c.toNat / 16) ∧
      hexDigit? (Nat.digitChar (c.toNat % 16)) = some (c.toNat % 16) ∧
      Piece.ofCode c.toNat = .character c := by
  have hdigit : ∀ digit < 16, hexDigit? (Nat.digitChar digit) = some digit := by decide
  refine ⟨hdigit _ (by omega), hdigit _ (by omega), ?_⟩
  rw [Piece.ofCode, if_neg, Char.ofNat_toNat]
  simp only [Bool.and_eq_true, decide_eq_true_eq]
  omega

-- Whatever is escaped comes back.
theorem read_escape (pieces : List Piece) (c : Char) (rest : Text) :
    readFrom? (.text pieces) (escape c ++ rest) = readFrom? (.text (.character c :: pieces)) rest := by
  have hread : ∀ mark character, escaped? mark = some character → mark ≠ 'u' →
      readFrom? (.text pieces) (['\\', mark] ++ rest) =
        readFrom? (.text (.character character :: pieces)) rest := by
    intro mark character hmark hcode
    have hslash : step? (.text pieces) '\\' = some (.escape pieces, []) := rfl
    have hescaped : step? (.escape pieces) mark = some (.text (.character character :: pieces), []) := by
      simp [step?, hcode, hmark]
    exact (readFrom?_quietly hslash _).trans (readFrom?_quietly hescaped rest)
  unfold escape
  -- Seven characters have an escape of their own.
  iterate 7
    split
    · subst_vars
      exact hread _ _ rfl (by decide)
  split
  · rename_i hcontrol
    obtain ⟨hhigh, hlow, hpiece⟩ := code_of_control hcontrol
    have hvalue : c.toNat / 16 * 16 + c.toNat % 16 = c.toNat := by omega
    have hthird : step? (.code pieces 0 1) (Nat.digitChar (c.toNat / 16)) =
        some (.code pieces (c.toNat / 16) 0, []) := by
      simp [step?, hhigh]
    have hlast : step? (.code pieces (c.toNat / 16) 0) (Nat.digitChar (c.toNat % 16)) =
        some (.text (.character c :: pieces), []) := by
      simp [step?, hlow, hvalue, hpiece]
    have hbegun : readFrom? (.text pieces) (['\\', 'u', '0', '0', Nat.digitChar (c.toNat / 16),
        Nat.digitChar (c.toNat % 16)] ++ rest) = readFrom? (.code pieces 0 1)
          (Nat.digitChar (c.toNat / 16) :: Nat.digitChar (c.toNat % 16) :: rest) :=
      (readFrom?_quietly rfl _).trans <| (readFrom?_quietly rfl _).trans <|
        (readFrom?_quietly rfl _).trans (readFrom?_quietly rfl _)
    rw [hbegun, readFrom?_quietly hthird, readFrom?_quietly hlast]
  · rename_i hquote hslash _ _ _ _ _ hcontrol
    have hstep : step? (.text pieces) c = some (.text (.character c :: pieces), []) := by
      simp [step?, hquote, hslash, hcontrol]
    exact readFrom?_quietly hstep rest

theorem read_content (pieces : List Piece) (content rest : Text) :
    readFrom? (.text pieces) (content.flatMap escape ++ '"' :: rest) =
      (readFrom? .between rest).map
        (.text (join? (pieces.reverse ++ content.map .character)) :: ·) := by
  induction content generalizing pieces with
  | nil =>
    simp only [List.flatMap_nil, List.nil_append, readFrom?_cons, step?, if_true, Option.bind_some,
      List.map_nil, List.append_nil]
    rfl
  | cons c content ih =>
    rw [List.flatMap_cons, List.append_assoc, read_escape, ih]
    simp

theorem Reads.quote {text : Text} {tokens : List Token} (h : Reads text tokens) (content : Text) :
    Reads (quote content ++ text) (.text (some content) :: tokens) := by
  intro rest hrest
  have hbegin : stepBetween '"' = (.text [], []) := rfl
  simp only [Json.quote, List.append_assoc, List.cons_append, List.nil_append, readFrom?_cons, step?, hbegin,
    Option.bind_some, read_content, List.reverse_nil, join?_characters, h rest hrest, Option.map_map]
  rfl

theorem ends_newLine (level : Nat) (text : Text) : Ends (newLine level ++ text) := by
  intro c hc
  obtain rfl : '\n' = c := by simpa [Json.newLine] using hc
  rfl

theorem ends_comma (text : Text) : Ends (',' :: text) := by
  intro c hc
  obtain rfl : ',' = c := by simpa using hc
  rfl

-- Entries with commas between them, each on a line of its own, and the closing bracket on the last one.
theorem reads_entries {Entry : Type} {text : Entry → Text} {tokens : Entry → List Token} {closing : Char}
    {last : Token} (level : Nat) (entry : Entry) (entries : List Entry) (hclosing : mark? closing = some last)
    (h : ∀ other ∈ entry :: entries, Reads (text other) (tokens other)) :
    Reads ([','].intercalate ((entry :: entries).map fun other => newLine (level + 1) ++ text other) ++
        (newLine level ++ [closing]))
      ([comma].intercalate ((entry :: entries).map tokens) ++ [last]) := by
  have hentry := h entry (by simp)
  induction entries generalizing entry with
  | nil =>
    have hend : Reads (newLine level ++ [closing]) [last] := (reads_nil.mark hclosing).newLine level
    simp only [List.map_cons, List.map_nil, List.intercalate_singleton, List.append_assoc]
    exact (hentry.append hend fun _ _ => by rw [List.append_assoc]; exact ends_newLine _ _).newLine _
  | cons next entries ih =>
    have hmore : ∀ other ∈ next :: entries, Reads (text other) (tokens other) :=
      fun other hother => h other (List.mem_cons_of_mem entry hother)
    have hrest := ih next hmore (hmore next (by simp))
    simp only [List.map_cons, List.intercalate_cons_cons, List.append_assoc, List.cons_append,
      List.nil_append] at hrest ⊢
    have hcomma := hrest.mark (show mark? ',' = some comma from rfl)
    exact (hentry.append hcomma fun _ _ => ends_comma _).newLine _

theorem reads_enclose {Entry : Type} {text : Entry → Text} {tokens : Entry → List Token}
    {opening closing : Char} {first last : Token} {level : Nat} {entries : List Entry}
    (hopening : mark? opening = some first) (hclosing : mark? closing = some last)
    (h : ∀ entry ∈ entries, Reads (text entry) (tokens entry)) :
    Reads (enclose opening closing level (entries.map text))
      (first :: ([comma].intercalate (entries.map tokens) ++ [last])) := by
  cases entries with
  | nil => exact (reads_nil.mark hclosing).mark hopening
  | cons entry entries =>
    have hall := (reads_entries level entry entries hclosing h).mark hopening
    simpa [enclose, Function.comp_def] using hall

end Token

-- The reader makes a value of these tokens wherever there can be one.
def Parses (tokens : List Token) (value : Json) : Prop :=
  ∀ place stack, place = .value ∨ place = .firstItem →
    tokens.foldlM Reader.step? ⟨place, stack⟩ = Reader.complete value stack

theorem parses_of_begin {token : Token} {value : Json} (hclose : token ≠ .listClose)
    (h : ∀ stack, Reader.beginValue stack token = Reader.complete value stack) : Parses [token] value := by
  intro place stack hplace
  have hstep : Reader.step? ⟨place, stack⟩ token = Reader.beginValue stack token := by
    rcases hplace with rfl | rfl
    · rfl
    · cases token with
      | listClose => exact absurd rfl hclose
      | _ => rfl
  rw [List.foldlM_cons, hstep, h]
  cases Reader.complete value stack <;> rfl

-- Items that are read one after the other make up the list that was begun.
theorem parse_items {tokens : Json → List Token} (item : Json) (items done : List Json)
    (stack : List Frame) {place : Place} (hplace : place = .value ∨ place = .firstItem)
    (h : ∀ other ∈ item :: items, Parses (tokens other) other) :
    ([Token.comma].intercalate ((item :: items).map tokens) ++ [Token.listClose]).foldlM Reader.step?
        ⟨place, .items done :: stack⟩ =
      Reader.complete (.list (done.reverse ++ item :: items)) stack := by
  have hitem := h item (by simp) place (.items done :: stack) hplace
  induction items generalizing item done place with
  | nil =>
    rw [List.map_singleton, List.intercalate_singleton, List.foldlM_append, hitem]
    simp [Reader.complete, Reader.step?]
  | cons next items ih =>
    have hmore : ∀ other ∈ next :: items, Parses (tokens other) other :=
      fun other hother => h other (List.mem_cons_of_mem item hother)
    have hnext : Place.value = .value ∨ Place.value = .firstItem := .inl rfl
    have hrest := ih next (item :: done) hnext hmore (hmore next (by simp) _ _ hnext)
    simp only [List.map_cons, List.intercalate_cons_cons, List.append_assoc] at hrest ⊢
    rw [List.foldlM_append, hitem]
    simpa [Reader.complete, Reader.step?] using hrest

-- A member is read as its name and what it gives.
def memberTokens (tokens : Option Text × Json → List Token) (member : Option Text × Json) : List Token :=
  .text member.1 :: .colon :: tokens member

theorem parse_member {tokens : Option Text × Json → List Token} {member : Option Text × Json}
    (done : List (Option Text × Json)) (stack : List Frame) {place : Place}
    (hplace : place = .name ∨ place = .firstName) (h : Parses (tokens member) member.2) :
    (memberTokens tokens member).foldlM Reader.step? ⟨place, .members done :: stack⟩ =
      some ⟨.more, .members (member :: done) :: stack⟩ := by
  have hname : Reader.step? ⟨place, .members done :: stack⟩ (.text member.1) =
      some ⟨.colon, .member done member.1 :: stack⟩ := by
    rcases hplace with rfl | rfl <;> rfl
  have hcolon : Reader.step? ⟨.colon, .member done member.1 :: stack⟩ .colon =
      some ⟨.value, .member done member.1 :: stack⟩ := rfl
  have hread := h .value (.member done member.1 :: stack) (.inl rfl)
  simp [memberTokens, List.foldlM_cons, hname, hcolon, hread, Reader.complete]

-- Members that are read one after the other make up the object that was begun.
theorem parse_members {tokens : Option Text × Json → List Token} (member : Option Text × Json)
    (members done : List (Option Text × Json)) (stack : List Frame) {place : Place}
    (hplace : place = .name ∨ place = .firstName)
    (h : ∀ other ∈ member :: members, Parses (tokens other) other.2) :
    ([Token.comma].intercalate ((member :: members).map (memberTokens tokens)) ++
        [Token.objectClose]).foldlM Reader.step? ⟨place, .members done :: stack⟩ =
      Reader.complete (.object (done.reverse ++ member :: members)) stack := by
  have hmember := parse_member done stack hplace (h member (by simp))
  induction members generalizing member done place with
  | nil =>
    rw [List.map_singleton, List.intercalate_singleton, List.foldlM_append, hmember]
    simp [Reader.step?]
  | cons next members ih =>
    have hmore : ∀ other ∈ next :: members, Parses (tokens other) other.2 :=
      fun other hother => h other (List.mem_cons_of_mem member hother)
    have hnext : Place.name = .name ∨ Place.name = .firstName := .inl rfl
    have hrest := ih next (member :: done) hnext hmore (parse_member _ _ hnext (hmore next (by simp)))
    simp only [List.map_cons, List.intercalate_cons_cons, List.append_assoc] at hrest ⊢
    rw [List.foldlM_append, hmember]
    simpa [Reader.step?] using hrest

-- A text that spells a value: read wherever a value can stand, it gives this one.
def Spells (text : Text) (value : Json) : Prop :=
  ∃ tokens, Token.Reads text tokens ∧ Parses tokens value

theorem spells_word {letters : Text} {value : Json} (h : ofWord? letters = some value) (hne : letters ≠ [])
    (hletters : letters.any Token.endsWord = false) : Spells letters value := by
  have hnone : ∀ c ∈ letters, Token.endsWord c = false := fun c hc =>
    Bool.eq_false_iff.mpr (List.any_eq_false.mp hletters c hc)
  refine ⟨_, Token.reads_word hne hnone, parses_of_begin (by simp) ?_⟩
  intro stack
  rw [Reader.beginValue, h, Option.bind_some]

theorem spells_quote (content : Text) : Spells (quote content) (.text (some content)) := by
  have hread := Token.reads_nil.quote content
  rw [List.append_nil] at hread
  exact ⟨_, hread, parses_of_begin (by simp) fun _ => rfl⟩

theorem prettyItems_eq (level : Nat) (items : List Json) : prettyItems level items = items.map (prettyAt level) := by
  induction items with
  | nil => rfl
  | cons item rest ih => rw [prettyItems, ih, List.map_cons]

theorem prettyMembers_eq (level : Nat) (members : List (Option Text × Json)) :
    prettyMembers level members =
      members.map fun member => quote (member.1.getD []) ++ ':' :: ' ' :: prettyAt level member.2 := by
  induction members with
  | nil => rfl
  | cons member rest ih => rw [prettyMembers, ih, List.map_cons]

theorem spells_list {level : Nat} {items : List Json}
    (h : ∀ item ∈ items, Spells (prettyAt (level + 1) item) item) :
    Spells (prettyAt level (.list items)) (.list items) := by
  choose! tokens hreads hparses using h
  rw [prettyAt, prettyItems_eq]
  refine ⟨_, Token.reads_enclose rfl rfl hreads, ?_⟩
  intro place stack hplace
  have hopen : Reader.step? ⟨place, stack⟩ .listOpen = some ⟨.firstItem, .items [] :: stack⟩ := by
    rcases hplace with rfl | rfl <;> rfl
  rw [List.foldlM_cons, hopen]
  cases items with
  | nil => simp [Reader.step?]
  | cons item items => exact parse_items item items [] stack (.inr rfl) hparses

theorem spells_object {level : Nat} {members : List (Option Text × Json)}
    (hnames : ∀ member ∈ members, member.1.isSome)
    (h : ∀ member ∈ members, Spells (prettyAt (level + 1) member.2) member.2) :
    Spells (prettyAt level (.object members)) (.object members) := by
  choose! tokens hreads hparses using h
  have hmembers : ∀ member ∈ members, Token.Reads
      (quote (member.1.getD []) ++ ':' :: ' ' :: prettyAt (level + 1) member.2) (memberTokens tokens member) := by
    intro member hmember
    obtain ⟨name, hname⟩ := Option.isSome_iff_exists.mp (hnames member hmember)
    have hvalue := ((hreads member hmember).blank (show Token.isBlank ' ' = true from rfl)).mark
      (show Token.mark? ':' = some .colon from rfl)
    rw [memberTokens, hname]
    exact hvalue.quote name
  rw [prettyAt, prettyMembers_eq]
  refine ⟨_, Token.reads_enclose rfl rfl hmembers, ?_⟩
  intro place stack hplace
  have hopen : Reader.step? ⟨place, stack⟩ .objectOpen = some ⟨.firstName, .members [] :: stack⟩ := by
    rcases hplace with rfl | rfl <;> rfl
  rw [List.foldlM_cons, hopen]
  cases members with
  | nil => simp [Reader.step?]
  | cons member members => exact parse_members member members [] stack (.inr rfl) hparses

-- Nothing that ends a word stands in a number.
theorem endsWord_of_isNumeric {c : Char} (h : Number.IsNumeric c) : Token.endsWord c = false := by
  rw [Bool.eq_false_iff]
  intro hmark
  have hends : c ∈ ['[', ']', '\x7b', '\x7d', ',', ':', '"', ' ', '\n', '\t', '\r'] := by
    by_contra hnone
    simp only [List.mem_cons, List.not_mem_nil, or_false, not_or] at hnone
    simp [Token.endsWord, Token.mark?, Token.isBlank, hnone] at hmark
  have hnone : ∀ mark ∈ ['[', ']', '\x7b', '\x7d', ',', ':', '"', ' ', '\n', '\t', '\r'],
      ¬Number.IsNumeric mark := by
    simp only [List.forall_mem_cons, List.not_mem_nil, false_implies, implies_true, and_true]
    decide
  exact hnone c hends h

theorem spells_number {number : Json.Number} (h : number.Sound) : Spells number.write (.number number) := by
  have hnumeric : ∀ c ∈ number.write, Number.IsNumeric c := fun _ => Number.isNumeric_of_mem_write h
  have hname : ∀ (name : Text) (c : Char), c ∈ name → ¬Number.IsNumeric c → number.write ≠ name := by
    rintro name c hmem hc rfl
    exact hc (hnumeric c hmem)
  have hword : ofWord? number.write = some (.number number) := by
    rw [ofWord?, if_neg (hname _ 'n' (by decide) (by decide)),
      if_neg (hname _ 't' (by decide) (by decide)),
      if_neg (hname _ 'f' (by decide) (by decide)), Number.read?_write h]
    rfl
  refine spells_word hword (Number.write_ne_nil h) (List.any_eq_false.mpr fun c hc => ?_)
  rw [endsWord_of_isNumeric (hnumeric c hc)]
  decide

-- What is written so that it can be read again: a text has content, a member a name, a number is well formed.
inductive Writable : Json → Prop
  | null : Writable .null
  | bool (value : Bool) : Writable (.bool value)
  | number (value : Json.Number) (h : value.Sound) : Writable (.number value)
  | text (content : Text) : Writable (.text (some content))
  | list (items : List Json) (h : ∀ item ∈ items, Writable item) : Writable (.list items)
  | object (members : List (Option Text × Json)) (hnames : ∀ member ∈ members, member.1.isSome)
      (h : ∀ member ∈ members, Writable member.2) : Writable (.object members)

theorem Writable.spells {value : Json} (h : Writable value) (level : Nat) :
    Spells (prettyAt level value) value := by
  induction h generalizing level with
  | null =>
    have hnull : Spells "null".toList .null := spells_word rfl (by decide) (by decide)
    exact hnull
  | bool value =>
    have htrue : Spells "true".toList (.bool true) := spells_word rfl (by decide) (by decide)
    have hfalse : Spells "false".toList (.bool false) := spells_word rfl (by decide) (by decide)
    cases value
    · exact hfalse
    · exact htrue
  | number value h => exact spells_number h
  | text content => exact spells_quote content
  | list items _ ih => exact spells_list fun item hitem => ih item hitem (level + 1)
  | object members hnames _ ih =>
    exact spells_object hnames fun member hmember => ih member hmember (level + 1)

theorem Writable.read?_pretty {value : Json} (h : Writable value) : read? value.pretty = some value := by
  obtain ⟨tokens, hread, hparse⟩ := h.spells 0
  have hall := hread [] (by intro c hc; cases hc)
  rw [List.append_nil] at hall
  have hnothing : Token.readFrom? .between [] = some [] := rfl
  rw [hnothing, Option.map_some, List.append_nil] at hall
  have hmade := hparse .value [] (.inl rfl)
  simp [read?, pretty, Token.readAll?, hall, ofTokens?, hmade, Reader.complete, Reader.result?]

end VoyageLog.Json
