import Pinout.Proofs.GrammarContent
import Pinout.Proofs.WrittenLines
import Pinout.Specifier.Shelf

/-!
The life of a specifier. It comes from a text, and an explicit one is complete from then on; an
implicit one may be given its content by an explicit sibling, once. Nothing else changes it,
whatever is done with the specifiers on a shelf and in whatever order.
-/

namespace Pinout

namespace Specifier

theorem ownContent_of_explicit {g : Grammar} (hg : g.family = .explicit) (captures : List String) :
    ownContent g captures = (g.expand captures none).map some := by
  simp only [ownContent, hg]

theorem ownContent_of_implicit {g : Grammar} (hg : g.family = .implicit) (captures : List String) :
    ownContent g captures = .ok none := by
  simp only [ownContent, hg]

/-- The content of an explicit specifier that some text resolves to. -/
def ExplicitContent (base : List Index) : Prop :=
  ∃ text s, resolve text = .ok s ∧ s.family = .explicit ∧ s.content = some base

/-- What is true of a specifier at every point of its life. -/
structure Sound (s : Specifier) : Prop where
  trim_text : Text.trim s.text = s.text
  resolve_text : ∃ fresh, resolve s.text = .ok fresh ∧ fresh.grammar = s.grammar ∧
    fresh.captures = s.captures
  explicit : s.family = .explicit →
    ∃ content, s.content = some content ∧ s.grammar.expand s.captures none = .ok content
  implicit : s.family = .implicit → s.content = none ∨
    ∃ base content, ExplicitContent base ∧ s.content = some content ∧
      s.grammar.expand s.captures (some base) = .ok content

/-- Fresh from its text, an explicit specifier has a content and an implicit one has none. -/
theorem content_of_resolve {text : String} {s : Specifier} (h : resolve text = .ok s) :
    (s.family = .explicit ∧
      ∃ content, s.content = some content ∧ s.grammar.expand s.captures none = .ok content) ∨
    (s.family = .implicit ∧ s.content = none) := by
  obtain ⟨g, captures, content, _, hc, rfl⟩ := resolve_eq_ok_iff.mp h
  cases hg : g.family with
  | explicit =>
    rw [ownContent_of_explicit hg] at hc
    cases he : g.expand captures none with
    | error e =>
      rw [he] at hc
      cases hc
    | ok indices =>
      rw [he] at hc
      cases hc
      exact Or.inl ⟨hg, indices, rfl, rfl⟩
  | implicit =>
    rw [ownContent_of_implicit hg] at hc
    cases hc
    exact Or.inr ⟨hg, rfl⟩

theorem resolve_text_of_resolve {text : String} {s : Specifier} (h : resolve text = .ok s) :
    Text.trim s.text = s.text ∧ resolve s.text = .ok s := by
  obtain ⟨g, captures, content, hr, hc, rfl⟩ := resolve_eq_ok_iff.mp h
  refine ⟨Text.trim_trim text, resolve_eq_ok_iff.mpr ?_⟩
  rw [Text.trim_trim]
  exact ⟨g, captures, content, hr, hc, rfl⟩

theorem sound_of_resolve {text : String} {s : Specifier} (h : resolve text = .ok s) : s.Sound := by
  obtain ⟨htrim, hagain⟩ := resolve_text_of_resolve h
  refine ⟨htrim, ⟨s, hagain, rfl, rfl⟩, fun he => ?_, fun hi => ?_⟩
  · rcases content_of_resolve h with ⟨_, hcontent⟩ | ⟨hi, _⟩
    · exact hcontent
    · cases he.symm.trans hi
  · rcases content_of_resolve h with ⟨he, _⟩ | ⟨_, hnone⟩
    · cases hi.symm.trans he
    · exact Or.inl hnone

/-- The content of an explicit specifier can be had from its text anew. -/
theorem Sound.explicitContent {s : Specifier} {base : List Index} (hs : s.Sound)
    (he : s.family = .explicit) (hb : s.content = some base) : ExplicitContent base := by
  -- `s` may have been copied or refilled, so its text is resolved once more
  obtain ⟨fresh, hf, hg, hc⟩ := hs.resolve_text
  have hfamily : fresh.family = .explicit := by rw [family, hg, ← he, family]
  obtain ⟨content, hcontent, hexpand⟩ := (sound_of_resolve hf).explicit hfamily
  obtain ⟨content', hcontent', hexpand'⟩ := hs.explicit he
  rw [hg, hc, hexpand'] at hexpand
  cases hexpand
  rw [hcontent'] at hb
  cases hb
  exact ⟨s.text, fresh, hf, hfamily, hcontent⟩

theorem borrowFrom_of_isResolved {s : Specifier} (hi : s.isImplicit = true)
    (hr : s.isResolved = true) (sibling : Specifier) : s.borrowFrom sibling = .ok s := by
  simp [borrowFrom_eq, hi, hr]

/-- An implicit specifier without a content takes what its grammar makes of an explicit sibling. -/
theorem borrowFrom_of_fresh {s sibling : Specifier} {base : List Index}
    (hs : s.family = .implicit) (hnone : s.content = none) (ht : sibling.family = .explicit)
    (hbase : sibling.content = some base) : s.borrowFrom sibling =
      (s.grammar.expand s.captures (some base)).map fun content =>
        { s with content := some content } := by
  simp [borrowFrom_eq, isImplicit, isResolved, contentOrError, hs, hnone, ht, hbase]

/-- Every outcome there is of giving `s` its content from `sibling`. -/
inductive Borrowing (s sibling : Specifier) : Except ResolveError Specifier → Prop where
  | alreadyExplicit : s.family = .explicit →
      Borrowing s sibling (.error (.alreadyExplicit s.text))
  | resolved {content : List Index} : s.family = .implicit → s.content = some content →
      Borrowing s sibling (.ok s)
  | siblingNotExplicit : s.family = .implicit → s.content = none → sibling.family = .implicit →
      Borrowing s sibling (.error (.siblingNotExplicit s.text sibling.text))
  | unresolved : s.family = .implicit → s.content = none → sibling.family = .explicit →
      sibling.content = none → Borrowing s sibling (.error (.unresolved sibling.text))
  | failed {base : List Index} {e : ResolveError} : s.family = .implicit → s.content = none →
      sibling.family = .explicit → sibling.content = some base →
        s.grammar.expand s.captures (some base) = .error e → Borrowing s sibling (.error e)
  | filled {base content : List Index} : s.family = .implicit → s.content = none →
      sibling.family = .explicit → sibling.content = some base →
        s.grammar.expand s.captures (some base) = .ok content →
          Borrowing s sibling (.ok { s with content := some content })

theorem borrowing (s sibling : Specifier) : Borrowing s sibling (s.borrowFrom sibling) := by
  cases hf : s.family with
  | explicit =>
    have h : s.borrowFrom sibling = .error (.alreadyExplicit s.text) := by
      simp [borrowFrom_eq, isImplicit, hf]
    rw [h]
    exact .alreadyExplicit hf
  | implicit =>
    cases hc : s.content with
    | some content =>
      rw [borrowFrom_of_isResolved (by simp [isImplicit, hf]) (by simp [isResolved, hc])]
      exact .resolved hf hc
    | none =>
      cases hsf : sibling.family with
      | implicit =>
        have h : s.borrowFrom sibling = .error (.siblingNotExplicit s.text sibling.text) := by
          simp [borrowFrom_eq, isImplicit, isResolved, hf, hc, hsf]
        rw [h]
        exact .siblingNotExplicit hf hc hsf
      | explicit =>
        cases hsc : sibling.content with
        | none =>
          have h : s.borrowFrom sibling = .error (.unresolved sibling.text) := by
            simp [borrowFrom_eq, isImplicit, isResolved, contentOrError, hf, hc, hsf, hsc]
          rw [h]
          exact .unresolved hf hc hsf hsc
        | some base =>
          rw [borrowFrom_of_fresh hf hc hsf hsc]
          cases he : s.grammar.expand s.captures (some base) with
          | error e => exact .failed hf hc hsf hsc he
          | ok content => exact .filled hf hc hsf hsc he

theorem Sound.borrowFrom {s sibling filled : Specifier} (hs : s.Sound) (ht : sibling.Sound)
    (h : s.borrowFrom sibling = .ok filled) : filled.Sound := by
  have hb := borrowing s sibling
  rw [h] at hb
  cases hb with
  | resolved _ _ => exact hs
  | filled hi _ he hbase hexpand =>
    refine ⟨hs.trim_text, hs.resolve_text, fun hx => ?_, fun _ => Or.inr ?_⟩
    · cases hi.symm.trans hx
    · exact ⟨_, _, ht.explicitContent he hbase, rfl, hexpand⟩

/-- An explicit sibling has its content, so a borrower never finds it unresolved or missing. -/
theorem Sound.borrowFrom_error {s sibling : Specifier} {e : ResolveError} (ht : sibling.Sound)
    (h : s.borrowFrom sibling = .error e) :
    (∀ text, e ≠ .unresolved text) ∧ ∀ g, e ≠ .missingSibling g := by
  have hb := borrowing s sibling
  rw [h] at hb
  cases hb with
  | alreadyExplicit _ => exact ⟨nofun, nofun⟩
  | siblingNotExplicit _ _ _ => exact ⟨nofun, nofun⟩
  | unresolved _ _ he hnone =>
    obtain ⟨content, hcontent, _⟩ := ht.explicit he
    rw [hnone] at hcontent
    cases hcontent
  | failed _ _ _ _ hexpand =>
    rcases Grammar.expand_error hexpand with ⟨c, _, rfl⟩ | rfl | rfl | ⟨hnone, _⟩
    · exact ⟨nofun, nofun⟩
    · exact ⟨nofun, nofun⟩
    · exact ⟨nofun, nofun⟩
    · cases hnone

end Specifier

namespace Shelf

def Sound (shelf : Shelf) : Prop := ∀ slot s, shelf slot = some s → s.Sound

theorem sound_empty : empty.Sound := by
  intro slot s h
  cases h

theorem Sound.put {shelf : Shelf} {s : Specifier} (h : shelf.Sound) (hs : s.Sound)
    (slot : String) : (shelf.put slot s).Sound := by
  intro other t ht
  by_cases ho : other = slot
  · rw [ho, put_same] at ht
    cases ht
    exact hs
  · rw [put_other shelf s ho] at ht
    exact h other t ht

theorem Sound.settle {shelf : Shelf} {r : Except ResolveError Specifier} (h : shelf.Sound)
    (hr : ∀ s, r = .ok s → s.Sound) (slot : String) : (shelf.settle slot r).1.Sound := by
  cases r with
  | error e => exact h
  | ok s => exact h.put (hr s rfl) slot

theorem act_borrowFrom {shelf : Shelf} {slot sibling : String} {s t : Specifier}
    (hs : shelf slot = some s) (ht : shelf sibling = some t) :
    shelf.act (.borrowFrom slot sibling) = shelf.settle slot (s.borrowFrom t) := by
  simp only [act, hs, ht]

theorem Sound.act {shelf : Shelf} (h : shelf.Sound) (a : Action) : (shelf.act a).1.Sound := by
  cases a with
  | resolve slot text =>
    change (shelf.settle slot (Specifier.resolve text)).1.Sound
    exact h.settle (fun s hs => Specifier.sound_of_resolve hs) slot
  | clone slot source =>
    cases hs : shelf source with
    | none => simpa only [Shelf.act, hs] using h
    | some s => simpa only [Shelf.act, hs] using h.put (h source s hs) slot
  | borrowFrom slot sibling =>
    cases hs : shelf slot with
    | none => simpa only [Shelf.act, hs] using h
    | some s =>
      cases ht : shelf sibling with
      | none => simpa only [Shelf.act, hs, ht] using h
      | some t =>
        rw [act_borrowFrom hs ht]
        exact h.settle (fun r hr => (h slot s hs).borrowFrom (h sibling t ht) hr) slot
  | content slot =>
    simp only [Shelf.act]
    split <;> exact h
  | equals slot other =>
    simp only [Shelf.act]
    split <;> exact h

theorem Sound.run {shelf : Shelf} (h : shelf.Sound) (actions : List Action) :
    (shelf.run actions).Sound := by
  induction actions generalizing shelf with
  | nil => exact h
  | cons a actions ih => exact ih (h.act a)

theorem put_self {shelf : Shelf} {slot : String} {s : Specifier} (h : shelf slot = some s) :
    shelf.put slot s = shelf := by
  funext other
  by_cases ho : other = slot
  · rw [ho, put_same, h]
  · rw [put_other shelf s ho]

/-- After `s` in `slot` was to have its content from `t` in `sibling`: nothing but the content of
`s` may have changed, and only if there was none. -/
structure OnlyFills (shelf : Shelf) (slot sibling : String) (s t : Specifier)
    (after : Shelf × Answer) : Prop where
  others : ∀ other, other ≠ slot → after.1 other = shelf other
  sibling : after.1 sibling = some t
  same_or_filled : after.1 slot = some s ∨
    s.content = none ∧ ∃ content, after.1 slot = some { s with content := some content }
  done_or_failed : after.2 = .done ∨
    ∃ e, after = (shelf, .failed e) ∧ (∀ text, e ≠ .unresolved text) ∧ ∀ g, e ≠ .missingSibling g
  resolved : s.isImplicit = true → s.isResolved = true → after = (shelf, .done)

theorem OnlyFills.of_error {shelf : Shelf} {slot sibling : String} {s t : Specifier}
    {e : ResolveError} (hs : shelf slot = some s) (ht : shelf sibling = some t) (hsound : t.Sound)
    (h : s.borrowFrom t = .error e) : OnlyFills shelf slot sibling s t (shelf, .failed e) := by
  refine ⟨fun _ _ => rfl, ht, Or.inl hs, Or.inr ⟨e, rfl, hsound.borrowFrom_error h⟩, ?_⟩
  intro hi hr
  rw [Specifier.borrowFrom_of_isResolved hi hr] at h
  cases h

theorem onlyFills_act {shelf : Shelf} {slot sibling : String} {s t : Specifier}
    (hs : shelf slot = some s) (ht : shelf sibling = some t) (hsound : t.Sound) :
    OnlyFills shelf slot sibling s t (shelf.act (.borrowFrom slot sibling)) := by
  rw [act_borrowFrom hs ht]
  cases h : s.borrowFrom t with
  | error e => exact .of_error hs ht hsound h
  | ok filled =>
    have hb := Specifier.borrowing s t
    rw [h] at hb
    cases hb with
    | resolved _ _ =>
      rw [settle, put_self hs]
      exact ⟨fun _ _ => rfl, ht, Or.inl hs, Or.inl rfl, fun _ _ => rfl⟩
    | filled hi hnone he _ _ =>
      refine ⟨fun other ho => put_other shelf _ ho, ?_, Or.inr ⟨hnone, _, put_same shelf slot _⟩,
        Or.inl rfl, fun _ hr => ?_⟩
      -- the sibling is explicit and the slot is not, so they are two
      · have hne : sibling ≠ slot := by
          rintro rfl
          rw [hs] at ht
          cases ht
          cases hi.symm.trans he
        exact (put_other shelf _ hne).trans ht
      · rw [Specifier.isResolved, hnone] at hr
        cases hr

/-- Whatever has been done on a shelf, its specifiers are sound, and giving one of them its content
changes nothing else. -/
theorem run_sound_and_onlyFills (actions : List Action) :
    (empty.run actions).Sound ∧
    ∀ slot sibling s t, empty.run actions slot = some s → empty.run actions sibling = some t →
      OnlyFills (empty.run actions) slot sibling s t
        ((empty.run actions).act (.borrowFrom slot sibling)) := by
  have hsound : (empty.run actions).Sound := sound_empty.run actions
  refine ⟨hsound, ?_⟩
  intro slot sibling s t hs ht
  exact onlyFills_act hs ht (hsound sibling t ht)

/-- Two copies of one specifier; the first borrows from `a` before that slot is refilled. -/
def refilling : List Action :=
  [.resolve "a" " 0..2\t", .resolve "b" "1..", .borrowFrom "b" "b", .clone "c" "b",
    .borrowFrom "b" "a", .resolve "a" "9"]

theorem run_sound_and_onlyFills_refilling :
    empty.run refilling "a" = some ⟨"9", .list, ["9"], some [9]⟩ ∧
    empty.run refilling "b" = some ⟨"1..", .shift, ["1"], some [1, 2, 3]⟩ ∧
    empty.run refilling "c" = some ⟨"1..", .shift, ["1"], none⟩ ∧
    Specifier.Sound ⟨"1..", .shift, ["1"], some [1, 2, 3]⟩ ∧
    OnlyFills (empty.run refilling) "b" "a" ⟨"1..", .shift, ["1"], some [1, 2, 3]⟩
      ⟨"9", .list, ["9"], some [9]⟩ ((empty.run refilling).act (.borrowFrom "b" "a")) ∧
    OnlyFills (empty.run refilling) "c" "a" ⟨"1..", .shift, ["1"], none⟩
      ⟨"9", .list, ["9"], some [9]⟩ ((empty.run refilling).act (.borrowFrom "c" "a")) := by
  have ha : empty.run refilling "a" = some ⟨"9", .list, ["9"], some [9]⟩ := by decide +kernel
  have hb : empty.run refilling "b" = some ⟨"1..", .shift, ["1"], some [1, 2, 3]⟩ := by
    decide +kernel
  have hc : empty.run refilling "c" = some ⟨"1..", .shift, ["1"], none⟩ := by decide +kernel
  obtain ⟨hsound, hfills⟩ := run_sound_and_onlyFills refilling
  exact ⟨ha, hb, hc, hsound _ _ hb, hfills _ _ _ _ hb ha, hfills _ _ _ _ hc ha⟩

end Shelf

end Pinout
