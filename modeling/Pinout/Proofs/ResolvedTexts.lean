import Pinout.Proofs.Climbing
import Pinout.Proofs.IdealTerms
import Pinout.Proofs.WrittenSpecifiers

/-!
What becomes of a text that is to be a specifier. It is refused if no grammar writes it, and an
implicit one is never refused otherwise; an explicit one is, in this order, for a numeral that is
no index, for a step that leads nowhere, or for a stride that leaves the range.
-/

namespace Pinout

namespace Numeral

def number (c : String) : Nat := value c.toList

/-- The second numeral is the first with zeros before it. -/
def Padded (c d : String) : Prop := ∃ k, d.toList = List.replicate k '0' ++ c.toList

theorem Padded.number_eq {c d : String} (h : Padded c d) : number d = number c := by
  obtain ⟨k, hk⟩ := h
  rw [number, hk, value, Nat.ofDigitChars_append, Nat.ofDigitChars_replicate_zero, Nat.mul_zero]
  rfl

theorem Padded.isNumeral {c d : String} (h : Padded c d)
    (hc : Numeral.isNumeral c.toList = true) : Numeral.isNumeral d.toList = true := by
  obtain ⟨k, hk⟩ := h
  obtain ⟨hne, hdigits⟩ := isNumeral_iff.mp hc
  rw [hk, isNumeral_iff]
  refine ⟨List.append_ne_nil_of_right_ne_nil _ hne, fun e he => ?_⟩
  rcases List.mem_append.mp he with he | he
  · rw [List.eq_of_mem_replicate he]
    rfl
  · exact hdigits e he

end Numeral

open Numeral (number Padded)

theorem Index.ofText?_of_isNumeral {c : String} (hc : Numeral.isNumeral c.toList = true) :
    Index.ofText? c = Index.ofNat? (number c) := by
  rw [Index.ofText?, Numeral.read?_of_isNumeral hc, Option.bind_some, number]

theorem Index.Spells.number_eq {c : String} {i : Index} (h : Index.Spells c i)
    (hc : Numeral.isNumeral c.toList = true) : number c = i.toNat := by
  rw [Index.Spells, Numeral.read?_of_isNumeral hc, Option.some.injEq] at h
  exact h

namespace Grammar

def AllIndices (captures : List String) : Prop := ∀ c ∈ captures, number c < UInt64.size

/-- The numeral is the first of them that is no index. -/
def FirstTooLarge (captures : List String) (n : String) : Prop :=
  ∃ earlier later, captures = earlier ++ n :: later ∧ AllIndices earlier ∧
    UInt64.size ≤ number n

theorem readIndices_of_firstTooLarge {captures : List String} {n : String}
    (hc : ∀ c ∈ captures, Numeral.isNumeral c.toList = true) (h : FirstTooLarge captures n) :
    readIndices captures = .error (.numberOutOfRange n) := by
  obtain ⟨earlier, later, rfl, hearlier, hn⟩ := h
  apply readIndices_append_of_none
  · intro d hd
    rw [Index.ofText?_of_isNumeral (hc d (List.mem_append_left _ hd))]
    obtain ⟨i, hi⟩ := Index.exists_of_lt_size (hearlier d hd)
    exact ⟨i, Index.ofNat?_eq_some_iff.mpr hi⟩
  · rw [Index.ofText?_of_isNumeral (hc n (List.mem_append_right _ List.mem_cons_self))]
    exact Index.ofNat?_eq_none_iff.mpr hn

theorem firstTooLarge_or_allIndices (captures : List String) :
    (∃ n, FirstTooLarge captures n) ∨ AllIndices captures := by
  induction captures with
  | nil => exact Or.inr nofun
  | cons c cs ih =>
    by_cases hc : UInt64.size ≤ number c
    · exact Or.inl ⟨c, [], cs, rfl, nofun, hc⟩
    · have hlt := Nat.lt_of_not_le hc
      rcases ih with ⟨n, earlier, later, rfl, hearlier, hn⟩ | hall
      · exact Or.inl ⟨n, c :: earlier, later, rfl, List.forall_mem_cons.mpr ⟨hlt, hearlier⟩, hn⟩
      · exact Or.inr (List.forall_mem_cons.mpr ⟨hlt, hall⟩)

theorem FirstTooLarge.not_allIndices {captures : List String} {n : String}
    (h : FirstTooLarge captures n) : ¬ AllIndices captures := by
  obtain ⟨earlier, later, rfl, _, hn⟩ := h
  intro hall
  exact absurd (hall n (List.mem_append_right _ List.mem_cons_self)) (Nat.not_lt_of_le hn)

theorem FirstTooLarge.unique {captures : List String} {n m : String}
    (hc : ∀ c ∈ captures, Numeral.isNumeral c.toList = true) (hn : FirstTooLarge captures n)
    (hm : FirstTooLarge captures m) : n = m := by
  have h := readIndices_of_firstTooLarge hc hn
  rw [readIndices_of_firstTooLarge hc hm] at h
  cases h
  rfl

theorem exists_spells {captures : List String}
    (hc : ∀ c ∈ captures, Numeral.isNumeral c.toList = true) (h : AllIndices captures) :
    ∃ args, List.Forall₂ Index.Spells captures args := by
  have hsome : ∀ c ∈ captures, (Index.ofText? c).isSome = true := by
    intro c hmem
    obtain ⟨i, hi⟩ := Index.exists_of_lt_size (h c hmem)
    rw [Index.ofText?_of_isNumeral (hc c hmem), Index.ofNat?_eq_some_iff.mpr hi]
    rfl
  obtain ⟨args, hargs⟩ := exists_readIndices hsome
  exact ⟨args, readIndices_eq_ok_iff.mp hargs⟩

/-- From the start to the end, neither of which is passed, in steps of zero. -/
def StepsNowhere (g : Grammar) (captures : List String) : Prop :=
  ∃ start step last, g = strideTo ∧ captures = [start, step, last] ∧ number step = 0 ∧
    number start ≤ number last

/-- The last term of a stride is no index, or its terms are too many to be counted by one. -/
def Overruns (g : Grammar) (captures : List String) : Prop :=
  ∃ start step last, g = stride ∧ captures = [start, step, last] ∧
    (number last = UInt64.size - 1 ∨ UInt64.size ≤ number start + number step * number last)

/-- Every outcome that the content of a specifier can have. -/
inductive Verdict (g : Grammar) (captures : List String) :
    Except ResolveError (Option (List Index)) → Prop where
  | implicit : g.family = .implicit → Verdict g captures (.ok none)
  | tooLarge {n : String} : FirstTooLarge captures n →
      Verdict g captures (.error (.numberOutOfRange n))
  | zeroStep : AllIndices captures → StepsNowhere g captures →
      Verdict g captures (.error (.zeroStep strideTo))
  | overrun : AllIndices captures → Overruns g captures →
      Verdict g captures (.error (.indexOutOfRange stride))
  | content (indices : List Index) : AllIndices captures → ¬ StepsNowhere g captures →
      ¬ Overruns g captures → Verdict g captures (.ok (some indices))

theorem StepsNowhere.eq_strideTo {g : Grammar} {captures : List String}
    (h : StepsNowhere g captures) : g = strideTo := by
  obtain ⟨_, _, _, hg, _⟩ := h
  exact hg

theorem Overruns.eq_stride {g : Grammar} {captures : List String} (h : Overruns g captures) :
    g = stride := by
  obtain ⟨_, _, _, hg, _⟩ := h
  exact hg

theorem stepsNowhere_iff {start step last : String} :
    StepsNowhere strideTo [start, step, last] ↔ number step = 0 ∧ number start ≤ number last := by
  simp [StepsNowhere, and_assoc]

theorem overruns_iff {start step last : String} :
    Overruns stride [start, step, last] ↔
      number last = UInt64.size - 1 ∨
        UInt64.size ≤ number start + number step * number last := by
  simp [Overruns, and_assoc]

theorem exists_three_captures {g : Grammar} (hg : g = strideTo ∨ g = stride)
    {captures : List String} {text : String} (h : g.write? captures = some text) :
    ∃ start step last, captures = [start, step, last] := by
  rcases captures with _ | ⟨a, _ | ⟨b, _ | ⟨c, _ | ⟨d, ds⟩⟩⟩⟩ <;>
    rcases hg with rfl | rfl <;> simp [write?] at h ⊢

theorem exists_three_args {start step last : String} {args : List Index}
    (hc : ∀ c ∈ [start, step, last], Numeral.isNumeral c.toList = true)
    (h : List.Forall₂ Index.Spells [start, step, last] args) :
    ∃ i j k : Index, args = [i, j, k] ∧ number start = i.toNat ∧ number step = j.toNat ∧
      number last = k.toNat := by
  simp only [List.forall₂_cons_left_iff, List.forall₂_nil_left_iff] at h
  obtain ⟨i, _, hi, ⟨j, _, hj, ⟨k, _, hk, rfl, rfl⟩, rfl⟩, rfl⟩ := h
  exact ⟨i, j, k, rfl, hi.number_eq (hc start (by simp)), hj.number_eq (hc step (by simp)),
    hk.number_eq (hc last (by simp))⟩

theorem verdict_strideTo {start step last : String} {args : List Index}
    (hc : ∀ c ∈ [start, step, last], Numeral.isNumeral c.toList = true)
    (hall : AllIndices [start, step, last])
    (hargs : List.Forall₂ Index.Spells [start, step, last] args) :
    Verdict strideTo [start, step, last] ((strideTo.indices args none).map some) := by
  obtain ⟨i, j, k, rfl, hi, hj, hk⟩ := exists_three_args hc hargs
  have hstay : ¬ Overruns strideTo [start, step, last] := by
    intro ho
    cases ho.eq_stride
  rcases UInt64.lt_or_le k i with hlt | hle
  · rw [indices_strideTo_of_lt hlt]
    refine .content [] hall (fun hz => ?_) hstay
    have hnot := UInt64.lt_iff_toNat_lt.mp hlt
    have hup := (stepsNowhere_iff.mp hz).2
    omega
  · by_cases hzero : j = 0
    · subst hzero
      rw [indices_strideTo_of_zero hle]
      refine .zeroStep hall (stepsNowhere_iff.mpr ⟨hj, ?_⟩)
      rw [hi, hk]
      exact UInt64.le_iff_toNat_le.mp hle
    · rw [indices_strideTo_of_le hle hzero]
      refine .content _ hall (fun hz => ?_) hstay
      have hpos := Index.toNat_pos hzero
      have hstep := (stepsNowhere_iff.mp hz).1
      omega

theorem verdict_stride {start step last : String} {args : List Index}
    (hc : ∀ c ∈ [start, step, last], Numeral.isNumeral c.toList = true)
    (hall : AllIndices [start, step, last])
    (hargs : List.Forall₂ Index.Spells [start, step, last] args) :
    Verdict stride [start, step, last] ((stride.indices args none).map some) := by
  obtain ⟨i, j, k, rfl, hi, hj, hk⟩ := exists_three_args hc hargs
  have hyields := yields_stride i j k none
  have hover : Overruns stride [start, step, last] ↔
      ¬ Reachable stride (progression i.toNat j.toNat (k.toNat + 1)) := by
    have hlt := k.toNat_lt_size
    rw [overruns_iff, reachable_stride_iff, hi, hj, hk]
    omega
  by_cases hr : Reachable stride (progression i.toNat j.toNat (k.toNat + 1))
  · obtain ⟨content, hok, _⟩ := hyields.ok hr
    rw [hok]
    refine .content content hall (fun hz => ?_) fun ho => hover.mp ho hr
    cases hz.eq_strideTo
  · rw [hyields.outOfRange hr]
    exact .overrun hall (hover.mpr hr)

theorem verdict {g : Grammar} {captures : List String} {text : String}
    (h : g.Writes captures text) : Verdict g captures (Specifier.ownContent g captures) := by
  cases hf : g.family with
  | implicit =>
    rw [Specifier.ownContent_of_implicit hf]
    exact .implicit hf
  | explicit =>
    rw [Specifier.ownContent_of_explicit hf]
    rcases firstTooLarge_or_allIndices captures with ⟨n, hn⟩ | hall
    · rw [expand, readIndices_of_firstTooLarge h.isNumeral hn]
      exact .tooLarge hn
    · obtain ⟨args, hargs⟩ := exists_spells h.isNumeral hall
      rw [expand_of_spells hargs]
      cases g with
      | list | range =>
        refine .content _ hall (fun hz => ?_) fun ho => ?_
        · cases hz.eq_strideTo
        · cases ho.eq_stride
      | strideTo =>
        obtain ⟨start, step, last, rfl⟩ := exists_three_captures (Or.inl rfl) h.write_eq
        exact verdict_strideTo h.isNumeral hall hargs
      | stride =>
        obtain ⟨start, step, last, rfl⟩ := exists_three_captures (Or.inr rfl) h.write_eq
        exact verdict_stride h.isNumeral hall hargs
      | reuse | shift | countUp | countDown | strideAlong => cases hf

/-- Zeros before the numerals change neither the values nor which numeral is too large. -/
theorem readIndices_of_padded {captures captures' : List String}
    (hc : ∀ c ∈ captures, Numeral.isNumeral c.toList = true)
    (h : List.Forall₂ Padded captures captures') :
    readIndices captures = readIndices captures' ∨
      ∃ n n', Padded n n' ∧ readIndices captures = .error (.numberOutOfRange n) ∧
        readIndices captures' = .error (.numberOutOfRange n') := by
  induction h with
  | nil => exact Or.inl rfl
  | @cons c d cs ds hcd _ ih =>
    obtain ⟨hcn, hrest⟩ := List.forall_mem_cons.mp hc
    have hread : Index.ofText? d = Index.ofText? c := by
      rw [Index.ofText?_of_isNumeral hcn, Index.ofText?_of_isNumeral (hcd.isNumeral hcn),
        hcd.number_eq]
    rw [readIndices, readIndices, hread]
    cases Index.ofText? c with
    | none => exact Or.inr ⟨c, d, hcd, rfl, rfl⟩
    | some i =>
      rcases ih hrest with he | ⟨n, n', hn, he, he'⟩
      · rw [he]
        exact Or.inl rfl
      · rw [he, he']
        exact Or.inr ⟨n, n', hn, rfl, rfl⟩

end Grammar

namespace Specifier

open Grammar (AllIndices FirstTooLarge StepsNowhere Overruns)

theorem resolve_of_writes {text : String} {g : Grammar} {captures : List String}
    (h : g.Writes captures (Text.trim text)) :
    resolve text = (ownContent g captures).map (⟨Text.trim text, g, captures, ·⟩) := by
  simp only [resolve_eq, recognize_eq_some_iff.mpr h]

theorem resolve_of_implicit {text : String} {g : Grammar} {captures : List String}
    (h : g.Writes captures (Text.trim text)) (hg : g.family = .implicit) :
    resolve text = .ok ⟨Text.trim text, g, captures, none⟩ := by
  rw [resolve_of_writes h, ownContent_of_implicit hg]
  rfl

theorem writes_or_unrecognized (text : String) :
    (∃ g captures, Grammar.Writes g captures (Text.trim text)) ∨
      (∀ g captures, ¬ Grammar.Writes g captures (Text.trim text)) ∧
        resolve text = .error (.unrecognized (Text.trim text)) := by
  cases hr : recognize (Text.trim text) with
  | none =>
    refine Or.inr ⟨fun g captures h => ?_, by simp only [resolve_eq, hr]⟩
    rw [recognize_eq_some_iff.mpr h] at hr
    cases hr
  | some found => exact Or.inl ⟨found.1, found.2, recognize_eq_some_iff.mp hr⟩

theorem resolve_error_of_writes {text : String} {g : Grammar} {captures : List String}
    (h : g.Writes captures (Text.trim text)) {e : ResolveError} (he : resolve text = .error e) :
    (∃ n, e = .numberOutOfRange n) ∨ e = .zeroStep .strideTo ∨ e = .indexOutOfRange .stride := by
  have hv := Grammar.verdict h
  rw [resolve_of_writes h] at he
  cases ho : ownContent g captures with
  | ok content =>
    rw [ho] at he
    cases he
  | error d =>
    rw [ho] at he hv
    cases he
    cases hv with
    | tooLarge _ => exact Or.inl ⟨_, rfl⟩
    | zeroStep _ _ => exact Or.inr (Or.inl rfl)
    | overrun _ _ => exact Or.inr (Or.inr rfl)

theorem resolve_eq_unrecognized_iff {text u : String} :
    resolve text = .error (.unrecognized u) ↔
      u = Text.trim text ∧ ∀ g captures, ¬ Grammar.Writes g captures (Text.trim text) := by
  rcases writes_or_unrecognized text with ⟨g, captures, h⟩ | ⟨hno, hr⟩
  · refine iff_of_false (fun he => ?_) fun hno => hno.2 g captures h
    rcases resolve_error_of_writes h he with ⟨_, he⟩ | he | he <;> cases he
  · rw [hr, Except.error.injEq, ResolveError.unrecognized.injEq]
    exact ⟨fun he => ⟨he.symm, hno⟩, fun he => he.1.symm⟩

/-- When a text of an explicit grammar fails to be a specifier, and for what. -/
structure Decided (text : String) (g : Grammar) (captures : List String) : Prop where
  numberOutOfRange : ∀ n, resolve text = .error (.numberOutOfRange n) ↔ FirstTooLarge captures n
  zeroStep : resolve text = .error (.zeroStep .strideTo) ↔
    AllIndices captures ∧ StepsNowhere g captures
  indexOutOfRange : resolve text = .error (.indexOutOfRange .stride) ↔
    AllIndices captures ∧ Overruns g captures
  ok : (∃ content, resolve text = .ok ⟨Text.trim text, g, captures, some content⟩) ↔
    AllIndices captures ∧ ¬ StepsNowhere g captures ∧ ¬ Overruns g captures

theorem decided {text : String} {g : Grammar} {captures : List String}
    (h : g.Writes captures (Text.trim text)) (hg : g.family = .explicit) :
    Decided text g captures := by
  have hr := resolve_of_writes h
  have hv := Grammar.verdict h
  generalize ownContent g captures = outcome at hr hv
  -- the verdicts exclude one another, so each of them settles all four questions
  cases hv with
  | implicit hi => cases hg.symm.trans hi
  | @tooLarge n hn =>
    have hno := hn.not_allIndices
    refine ⟨fun m => ?_, ?_, ?_, ?_⟩ <;> rw [hr]
    · constructor
      · intro he
        cases he
        exact hn
      · intro hm
        rw [hn.unique h.isNumeral hm]
        rfl
    · exact iff_of_false nofun fun hz => hno hz.1
    · exact iff_of_false nofun fun ho => hno ho.1
    · exact iff_of_false nofun fun hok => hno hok.1
  | zeroStep hall hz =>
    refine ⟨fun m => ?_, ?_, ?_, ?_⟩ <;> rw [hr]
    · exact iff_of_false nofun fun hm => hm.not_allIndices hall
    · exact iff_of_true rfl ⟨hall, hz⟩
    · refine iff_of_false nofun fun ho => ?_
      cases hz.eq_strideTo.symm.trans ho.2.eq_stride
    · exact iff_of_false nofun fun hok => hok.2.1 hz
  | overrun hall ho =>
    refine ⟨fun m => ?_, ?_, ?_, ?_⟩ <;> rw [hr]
    · exact iff_of_false nofun fun hm => hm.not_allIndices hall
    · refine iff_of_false nofun fun hz => ?_
      cases hz.2.eq_strideTo.symm.trans ho.eq_stride
    · exact iff_of_true rfl ⟨hall, ho⟩
    · exact iff_of_false nofun fun hok => hok.2.2 ho
  | content indices hall hz ho =>
    refine ⟨fun m => ?_, ?_, ?_, ?_⟩ <;> rw [hr]
    · exact iff_of_false nofun fun hm => hm.not_allIndices hall
    · exact iff_of_false nofun fun h => hz h.2
    · exact iff_of_false nofun fun h => ho h.2
    · exact iff_of_true ⟨indices, rfl⟩ ⟨hall, hz, ho⟩

/-- The same content, or the same kind of error. -/
inductive SameOutcome : Except ResolveError Specifier → Except ResolveError Specifier → Prop where
  | ok {s s' : Specifier} : s.grammar = s'.grammar → s.content = s'.content →
      SameOutcome (.ok s) (.ok s')
  | numberOutOfRange {n n' : String} : Padded n n' →
      SameOutcome (.error (.numberOutOfRange n)) (.error (.numberOutOfRange n'))
  | error (e : ResolveError) : SameOutcome (.error e) (.error e)

theorem sameOutcome_of_padded {text text' : String} {g : Grammar}
    {captures captures' : List String} (h : g.Writes captures (Text.trim text))
    (h' : g.Writes captures' (Text.trim text')) (hp : List.Forall₂ Padded captures captures') :
    SameOutcome (resolve text) (resolve text') := by
  rw [resolve_of_writes h, resolve_of_writes h']
  cases hg : g.family with
  | implicit =>
    rw [ownContent_of_implicit hg, ownContent_of_implicit hg]
    exact .ok rfl rfl
  | explicit =>
    rw [ownContent_of_explicit hg, ownContent_of_explicit hg, Grammar.expand, Grammar.expand]
    rcases Grammar.readIndices_of_padded h.isNumeral hp with he | ⟨n, n', hn, he, he'⟩
    · rw [he]
      cases Grammar.readIndices captures' with
      | error e => exact .error e
      | ok args =>
        dsimp only
        cases g.indices args none with
        | error e => exact .error e
        | ok content => exact .ok rfl rfl
    · rw [he, he']
      exact .numberOutOfRange hn

/-- A text is refused for the reasons below and for no other; an implicit one only if nothing writes
it, and zeros before a numeral never matter. -/
theorem resolve_fails_iff (text : String) :
    (∀ u, resolve text = .error (.unrecognized u) ↔
      u = Text.trim text ∧ ∀ g captures, ¬ Grammar.Writes g captures (Text.trim text)) ∧
    (∀ g captures, Grammar.Writes g captures (Text.trim text) → g.family = .implicit →
      resolve text = .ok ⟨Text.trim text, g, captures, none⟩) ∧
    (∀ g captures, Grammar.Writes g captures (Text.trim text) → g.family = .explicit →
      Decided text g captures) ∧
    (∀ e, resolve text = .error e → e = .unrecognized (Text.trim text) ∨
      (∃ n, e = .numberOutOfRange n) ∨ e = .zeroStep .strideTo ∨ e = .indexOutOfRange .stride) ∧
    ∀ text' g captures captures', Grammar.Writes g captures (Text.trim text) →
      Grammar.Writes g captures' (Text.trim text') → List.Forall₂ Padded captures captures' →
      SameOutcome (resolve text) (resolve text') := by
  refine ⟨fun u => resolve_eq_unrecognized_iff, ?_, ?_, ?_, ?_⟩
  · intro g captures h hg
    exact resolve_of_implicit h hg
  · intro g captures h hg
    exact decided h hg
  · intro e he
    rcases writes_or_unrecognized text with ⟨g, captures, h⟩ | ⟨_, hr⟩
    · exact Or.inr (resolve_error_of_writes h he)
    · cases hr.symm.trans he
      exact Or.inl rfl
  · intro text' g captures captures' h h' hp
    exact sameOutcome_of_padded h h' hp

theorem resolve_fails_iff_too_large :
    (∀ g captures, ¬ Grammar.Writes g captures (Text.trim "1, 2")) ∧
    resolve "99999999999999999999.. " =
      .ok ⟨"99999999999999999999..", .shift, ["99999999999999999999"], none⟩ ∧
    FirstTooLarge ["7", "00", "18446744073709551616"] "18446744073709551616" ∧
    resolve "7:00..18446744073709551616" =
      .error (.numberOutOfRange "18446744073709551616") ∧
    SameOutcome (resolve "7:00..18446744073709551616")
      (resolve "\t007:00..018446744073709551616") := by
  have hlist : resolve "1, 2" = .error (.unrecognized "1, 2") := by decide +kernel
  have hshift : Grammar.Writes .shift ["99999999999999999999"]
      (Text.trim "99999999999999999999.. ") := ⟨by decide +kernel, by decide +kernel⟩
  have hshort : Grammar.Writes .strideTo ["7", "00", "18446744073709551616"]
      (Text.trim "7:00..18446744073709551616") := ⟨by decide +kernel, by decide +kernel⟩
  have hlong : Grammar.Writes .strideTo ["007", "00", "018446744073709551616"]
      (Text.trim "\t007:00..018446744073709551616") := ⟨by decide +kernel, by decide +kernel⟩
  have hpadded : List.Forall₂ Padded ["7", "00", "18446744073709551616"]
      ["007", "00", "018446744073709551616"] :=
    .cons ⟨2, rfl⟩ (.cons ⟨0, rfl⟩ (.cons ⟨1, rfl⟩ .nil))
  have htoo : FirstTooLarge ["7", "00", "18446744073709551616"] "18446744073709551616" :=
    ⟨["7", "00"], [], rfl, by simp only [AllIndices]; decide +kernel, by decide +kernel⟩
  obtain ⟨hunrecognized, _⟩ := resolve_fails_iff "1, 2"
  obtain ⟨_, himplicit, _⟩ := resolve_fails_iff "99999999999999999999.. "
  obtain ⟨_, _, hexplicit, _, hpadding⟩ := resolve_fails_iff "7:00..18446744073709551616"
  exact ⟨((hunrecognized _).mp hlist).2, himplicit _ _ hshift rfl, htoo,
    ((hexplicit _ _ hshort rfl).numberOutOfRange _).mpr htoo,
    hpadding _ _ _ _ hshort hlong hpadded⟩

end Specifier

end Pinout
