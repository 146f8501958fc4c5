import Mathlib.Data.List.Basic
import Mathlib.Data.List.Induction
import VoyageLog.Proofs.TimeSource.Hearing

namespace VoyageLog.TimeSource

open Sentence

-- The head of a sentence of a kind that tells the time: six ASCII characters, of which two name the talker.
structure Opens (talker : Text) (kind : Kind) (sentence : Text) : Prop where
  head : head sentence = '$' :: (talker ++ kind.code)
  two : talker.length = 2
  ascii : talker.all isAscii

-- What a sentence tells of itself, kind by kind.
inductive Tells (sentence : Text) : TimeSource → Telling → Prop
  | rmc (talker : Text) (utc : UtcTime) (date : Date) (hopens : Opens talker .rmc sentence)
      (htime : (fields sentence)[1]?.bind UtcTime.read? = some utc)
      (hdate : (fields sentence)[9]?.bind dayMonthYear? = some date) :
      Tells sentence ⟨talker, .rmc, utc.precision⟩ ⟨utc, some date⟩
  | zda (talker day month year : Text) (utc : UtcTime) (date : Date) (hopens : Opens talker .zda sentence)
      (htime : (fields sentence)[1]?.bind UtcTime.read? = some utc) (hday : (fields sentence)[2]? = some day)
      (hmonth : (fields sentence)[3]? = some month) (hyear : (fields sentence)[4]? = some year)
      (hdate : separateDate? day month year = some date) :
      Tells sentence ⟨talker, .zda, utc.precision⟩ ⟨utc, some date⟩
  | gll (talker : Text) (utc : UtcTime) (hopens : Opens talker .gll sentence)
      (htime : (fields sentence)[5]?.bind UtcTime.read? = some utc) :
      Tells sentence ⟨talker, .gll, utc.precision⟩ ⟨utc, none⟩
  | gga (talker : Text) (utc : UtcTime) (hopens : Opens talker .gga sentence)
      (htime : (fields sentence)[1]?.bind UtcTime.read? = some utc) :
      Tells sentence ⟨talker, .gga, utc.precision⟩ ⟨utc, none⟩
  | gbs (talker : Text) (utc : UtcTime) (hopens : Opens talker .gbs sentence)
      (htime : (fields sentence)[1]?.bind UtcTime.read? = some utc) :
      Tells sentence ⟨talker, .gbs, utc.precision⟩ ⟨utc, none⟩

def TellsDate (sentence : Text) (date : Date) : Prop :=
  ∃ source utc, Tells sentence source ⟨utc, some date⟩

section Telling

variable {talker sentence : Text} {kind : Kind} {source : TimeSource} {telling : Telling}

theorem code_of_ofCode? {code : Text} (h : Kind.ofCode? code = some kind) : code = kind.code := by
  have hcode := List.find?_some h
  simpa [eq_comm] using hcode

-- A head of three letters of a kind and five more characters before them has room for a talker of two.
theorem Opens.ofParametric? (h : Opens talker kind sentence) :
    Address.ofParametric? sentence = some ⟨talker, kind.code⟩ := by
  obtain ⟨hhead, htwo, hascii⟩ := h
  obtain ⟨t₁, t₂, rfl⟩ := List.length_eq_two.mp htwo
  cases kind <;> simp_all [Address.ofParametric?, Kind.code, isAscii]

theorem opens_of_address {address : Address} (haddress : Address.ofParametric? sentence = some address)
    (hkind : Kind.ofCode? address.code = some kind) : Opens address.talker kind sentence := by
  have hcode := code_of_ofCode? hkind
  unfold Address.ofParametric? at haddress
  split at haddress
  · rename_i t₁ t₂ c₁ c₂ c₃ hhead
    split at haddress
    · rename_i hall
      obtain rfl := Option.some.inj haddress
      have hascii : isAscii t₁ ∧ isAscii t₂ := by
        simp only [List.all_cons, Bool.and_eq_true] at hall
        exact ⟨hall.1, hall.2.1⟩
      refine ⟨?_, rfl, by simp [hascii]⟩
      rw [hhead, ← hcode]
      rfl
    · cases haddress
  · cases haddress

theorem told?_of_opens (h : Opens talker kind sentence) :
    told? sentence = (Telling.read? kind (fields sentence)).map fun telling =>
      (⟨talker, kind, telling.utc.precision⟩, telling) := by
  simp only [told?, h.ofParametric?, Kind.ofCode?_code, Option.bind_eq_bind, Option.bind_some]
  cases Telling.read? kind (fields sentence) <;> rfl

-- What is told is what the fields of a sentence tell that opens as one of its kind does.
theorem told?_eq_some_iff : told? sentence = some (source, telling) ↔ Tells sentence source telling := by
  constructor
  · intro h
    simp only [told?, Option.bind_eq_bind, Option.bind_eq_some_iff, Option.some.injEq, Prod.mk.injEq] at h
    obtain ⟨address, haddress, kind, hkind, read, hread, rfl, rfl⟩ := h
    have hopens := opens_of_address haddress hkind
    cases kind <;> simp only [Telling.read?, Option.bind_eq_bind, Option.bind_eq_some_iff, Option.some.injEq] at hread
    case rmc =>
      obtain ⟨first, hfirst, utc, htime, ninth, hninth, date, hdate, rfl⟩ := hread
      exact .rmc _ utc date hopens (by simp [hfirst, htime]) (by simp [hninth, hdate])
    case zda =>
      obtain ⟨first, hfirst, utc, htime, day, hday, month, hmonth, year, hyear, date, hdate, rfl⟩ := hread
      exact .zda _ day month year utc date hopens (by simp [hfirst, htime]) hday hmonth hyear hdate
    case gll =>
      obtain ⟨fifth, hfifth, utc, htime, rfl⟩ := hread
      exact .gll _ utc hopens (by simp [hfifth, htime])
    case gga =>
      obtain ⟨first, hfirst, utc, htime, rfl⟩ := hread
      exact .gga _ utc hopens (by simp [hfirst, htime])
    case gbs =>
      obtain ⟨first, hfirst, utc, htime, rfl⟩ := hread
      exact .gbs _ utc hopens (by simp [hfirst, htime])
  · intro h
    cases h with
    | rmc talker utc date hopens htime hdate =>
      obtain ⟨first, hfirst, hutc⟩ := Option.bind_eq_some_iff.mp htime
      obtain ⟨ninth, hninth, hday⟩ := Option.bind_eq_some_iff.mp hdate
      simp [told?_of_opens hopens, Telling.read?, hfirst, hutc, hninth, hday]
    | zda talker day month year utc date hopens htime hday hmonth hyear hdate =>
      obtain ⟨first, hfirst, hutc⟩ := Option.bind_eq_some_iff.mp htime
      simp [told?_of_opens hopens, Telling.read?, hfirst, hutc, hday, hmonth, hyear, hdate]
    | gll talker utc hopens htime =>
      obtain ⟨fifth, hfifth, hutc⟩ := Option.bind_eq_some_iff.mp htime
      simp [told?_of_opens hopens, Telling.read?, hfifth, hutc]
    | gga talker utc hopens htime | gbs talker utc hopens htime =>
      obtain ⟨first, hfirst, hutc⟩ := Option.bind_eq_some_iff.mp htime
      simp [told?_of_opens hopens, Telling.read?, hfirst, hutc]

theorem dateTold?_eq_some_iff {date : Date} : dateTold? sentence = some date ↔ TellsDate sentence date := by
  constructor
  · intro h
    obtain ⟨⟨source, utc, own⟩, htold, rfl⟩ := Option.bind_eq_some_iff.mp h
    exact ⟨source, utc, told?_eq_some_iff.mp htold⟩
  · rintro ⟨source, utc, htells⟩
    exact Option.bind_eq_some_iff.mpr ⟨_, told?_eq_some_iff.mpr htells, rfl⟩

theorem dateTold?_eq_none_iff : dateTold? sentence = none ↔ ∀ date, ¬TellsDate sentence date := by
  simp only [← dateTold?_eq_some_iff, Option.eq_none_iff_forall_ne_some]

end Telling

-- What can be asked of a listener.
inductive Call
  | hear (sentence : Text)
  | heed (sentence : Text)
  | lockTo (source : TimeSource)
  | unlock

namespace Call

def sentence? : Call → Option Text
  | .hear sentence | .heed sentence => some sentence
  | .lockTo _ | .unlock => none

-- The lock that a call leaves behind, if it is about the lock.
def lock? : Call → Option (Option TimeSource)
  | .hear _ | .heed _ => none
  | .lockTo source => some (some source)
  | .unlock => some none

end Call

-- The last answer to be had from some questions.
def lastAnswer {α β : Type} (answer? : α → Option β) (asked : List α) : Option β :=
  asked.reverse.findSome? answer?

theorem lastAnswer_concat {α β : Type} (answer? : α → Option β) (asked : List α) (last : α) :
    lastAnswer answer? (asked ++ [last]) = (answer? last).or (lastAnswer answer? asked) := by
  simp only [lastAnswer, List.reverse_append, List.reverse_singleton, List.singleton_append, List.findSome?_cons]
  cases answer? last <;> rfl

theorem lastAnswer_eq_some_iff {α β : Type} {answer? : α → Option β} {asked : List α} {answer : β} :
    lastAnswer answer? asked = some answer ↔ ∃ earlier question later, asked = earlier ++ question :: later ∧
      answer? question = some answer ∧ ∀ other ∈ later, answer? other = none := by
  rw [lastAnswer, List.findSome?_eq_some_iff]
  constructor
  · rintro ⟨later, question, earlier, hasked, hanswer, hnone⟩
    refine ⟨earlier.reverse, question, later.reverse, ?_, hanswer, by simpa using hnone⟩
    rw [← asked.reverse_reverse, hasked]
    simp
  · rintro ⟨earlier, question, later, rfl, hanswer, hnone⟩
    exact ⟨later.reverse, question, earlier.reverse, by simp, hanswer, by simpa using hnone⟩

theorem lastAnswer_eq_none_iff {α β : Type} {answer? : α → Option β} {asked : List α} :
    lastAnswer answer? asked = none ↔ ∀ question ∈ asked, answer? question = none := by
  simp [lastAnswer]

namespace Listener

def obey (listener : Listener) : Call → Listener
  | .hear sentence => (listener.hear sentence).2
  | .heed sentence => (listener.heed sentence).2
  | .lockTo source => listener.lockedTo source
  | .unlock => listener.unlocked

def obeyAll (listener : Listener) (calls : List Call) : Listener := calls.foldl obey listener

-- Being locked has no part in what is remembered, and what is remembered none in the lock.
theorem obeyAll_fresh (calls : List Call) :
    fresh.obeyAll calls =
      ⟨lastAnswer dateTold? (calls.filterMap Call.sentence?), (lastAnswer Call.lock? calls).join⟩ := by
  induction calls using List.reverseRecOn with
  | nil => rfl
  | append_singleton calls last ih =>
    have hlast : fresh.obeyAll (calls ++ [last]) = (fresh.obeyAll calls).obey last := List.foldl_append ..
    rw [hlast, ih, lastAnswer_concat, List.filterMap_append]
    cases last with
    | hear sentence | heed sentence =>
      have hafter := after_hear
        ⟨lastAnswer dateTold? (calls.filterMap Call.sentence?), (lastAnswer Call.lock? calls).join⟩ sentence
      simp only [List.filterMap_cons, List.filterMap_nil, Call.sentence?, lastAnswer_concat, Call.lock?,
        Option.none_or]
      exact hafter
    | lockTo source | unlock =>
      simp [obey, lockedTo, unlocked, Call.sentence?, Call.lock?, List.filterMap_cons]

theorem hear_eq_some_iff (listener : Listener) (sentence : Text) (sighting : Sighting) :
    (listener.hear sentence).1 = some sighting ↔ ∃ telling date, Tells sentence sighting.source telling ∧
      telling.date.or listener.date = some date ∧ sighting.instant = Instant.onDate date telling.utc.time := by
  simp only [← told?_eq_some_iff]
  cases htold : told? sentence with
  | none => simp [hear_of_untold listener htold]
  | some told =>
    obtain ⟨source, telling⟩ := told
    have hdate : listener.dateOf telling = telling.date.or listener.date := by
      unfold dateOf
      cases telling.date <;> rfl
    obtain ⟨speaker, instant⟩ := sighting
    simp only [hear_of_told listener htold, hdate, Option.map_eq_some_iff, Sighting.mk.injEq, Option.some.injEq,
      Prod.mk.injEq]
    constructor
    · rintro ⟨date, hknown, rfl, rfl⟩
      exact ⟨telling, date, ⟨rfl, rfl⟩, hknown, rfl⟩
    · rintro ⟨_, date, ⟨rfl, rfl⟩, hknown, rfl⟩
      exact ⟨date, hknown, rfl, rfl⟩

theorem heed_eq_some_iff (listener : Listener) (sentence : Text) (sighting : Sighting) :
    (listener.heed sentence).1 = some sighting ↔
      (listener.hear sentence).1 = some sighting ∧
        (listener.lock = none ∨ listener.lock = some sighting.source) := by
  simp only [heed, Option.filter_eq_some_iff, heeds]
  cases listener.lock with
  | none => simp
  | some only => simp

-- Whatever was said to a fresh listener, it knows the date of the last sentence that told one, and heeds the source
-- that it was locked to last if it was not unlocked since. A further sentence tells its time with its own date, or
-- with the known one if it has none; heeded, it tells the same or, if another source is locked to, nothing.
theorem remembers_last_date (calls : List Call) (sentence : Text) :
    let listener := fresh.obeyAll calls
    let said := calls.filterMap Call.sentence?
    (∀ date, listener.date = some date ↔ ∃ earlier told later, said = earlier ++ told :: later ∧
      TellsDate told date ∧ ∀ other ∈ later, ∀ date, ¬TellsDate other date) ∧
    (listener.date = none ↔ ∀ other ∈ said, ∀ date, ¬TellsDate other date) ∧
    (∀ source, listener.lock = some source ↔ ∃ earlier later, calls = earlier ++ .lockTo source :: later ∧
      ∀ call ∈ later, call.lock? = none) ∧
    (∀ sighting, (listener.hear sentence).1 = some sighting ↔
      ∃ telling date, Tells sentence sighting.source telling ∧ telling.date.or listener.date = some date ∧
        sighting.instant = Instant.onDate date telling.utc.time) ∧
    ∀ sighting, (listener.heed sentence).1 = some sighting ↔
      (listener.hear sentence).1 = some sighting ∧
        (listener.lock = none ∨ listener.lock = some sighting.source) := by
  intro listener said
  have hlistener : listener = _ := obeyAll_fresh calls
  have hdate : listener.date = lastAnswer dateTold? said := by rw [hlistener]
  have hlock : listener.lock = (lastAnswer Call.lock? calls).join := by rw [hlistener]
  refine ⟨fun date => ?_, ?_, fun source => ?_, listener.hear_eq_some_iff sentence, listener.heed_eq_some_iff sentence⟩
  · rw [hdate, lastAnswer_eq_some_iff]
    simp only [dateTold?_eq_some_iff, dateTold?_eq_none_iff]
  · rw [hdate, lastAnswer_eq_none_iff]
    simp only [dateTold?_eq_none_iff]
  · rw [hlock, Option.join_eq_some_iff, lastAnswer_eq_some_iff]
    constructor
    · rintro ⟨earlier, call, later, rfl, hcall, hlater⟩
      cases call with
      | lockTo other =>
        obtain rfl : other = source := by simpa [Call.lock?] using hcall
        exact ⟨earlier, later, rfl, hlater⟩
      | hear | heed | unlock => simp [Call.lock?] at hcall
    · rintro ⟨earlier, later, rfl, hlater⟩
      exact ⟨earlier, _, later, rfl, rfl, hlater⟩

end Listener

end VoyageLog.TimeSource
