import Pinout.Proofs.WrittenLines

/-!
Lines written to a receiver that may take a part only of what it is offered, and that has limited
room. However it divides the octets, it ends up with as many of them as there is room for, and
writing succeeds if these are all; then the lines can be read again.
-/

namespace Pinout.Stream

/-- A receiver of octets. It answers a request with the number of the octets that it took, from the
front on, or with a failure; one that was interrupted is the same request as its repetition. -/
structure Writer (State : Type) where
  taken : State → Octets
  write : State → Octets → State × Except IoError Nat
  flush : State → State × Except IoError Unit

/-- The octets of every line, each line with a line feed after it. -/
def total (lines : List String) : Octets :=
  lines.flatMap fun line => Octets.ofText line ++ Octets.ofText "\n"

theorem total_cons (line : String) (rest : List String) :
    total (line :: rest) = Octets.ofText line ++ (Octets.ofText "\n" ++ total rest) := by
  rw [total, List.flatMap_cons, List.append_assoc]
  rfl

namespace Writer

variable {State : Type}

/-- Offers what is left of the octets until nothing is. It is a failure if nothing is taken. -/
def writeAll (w : Writer State) (s : State) : Octets → State × Except IoError Unit
  | [] => (s, .ok ())
  | b :: rest =>
    match w.write s (b :: rest) with
    | (s, .error cause) => (s, .error cause)
    | (s, .ok 0) => (s, .error (.other "failed to write whole buffer"))
    | (s, .ok (n + 1)) => w.writeAll s (rest.drop n)
termination_by os => os.length
decreasing_by
  rw [List.length_drop, List.length_cons]
  omega

/-- Writes each line and a line feed after it, up to the first failure, and flushes at the end. -/
def writeLines (w : Writer State) (s : State) : List String → State × Except StreamError Unit
  | [] =>
    match w.flush s with
    | (s, .error cause) => (s, .error (.write cause))
    | (s, .ok ()) => (s, .ok ())
  | line :: rest =>
    match w.writeAll s (Octets.ofText line) with
    | (s, .error cause) => (s, .error (.write cause))
    | (s, .ok ()) =>
      match w.writeAll s (Octets.ofText "\n") with
      | (s, .error cause) => (s, .error (.write cause))
      | (s, .ok ()) => w.writeLines s rest

/-- From a sound state on, the writer takes one octet at least of every request until it has taken
`room` octets, and none after that. -/
structure Limited (w : Writer State) (Sound : State → Prop) (room : Nat) : Prop where
  length_le : ∀ s, Sound s → (w.taken s).length ≤ room
  accepts : ∀ s os, Sound s → (w.taken s).length < room → os ≠ [] →
    ∃ s' n, w.write s os = (s', .ok n) ∧ 0 < n ∧ n ≤ os.length ∧ Sound s' ∧
      w.taken s' = w.taken s ++ os.take n
  refuses : ∀ s os, Sound s → (w.taken s).length = room → os ≠ [] →
    ∃ s', Sound s' ∧ w.taken s' = w.taken s ∧
      (w.write s os = (s', .ok 0) ∨ ∃ cause, w.write s os = (s', .error cause))
  flushes : ∀ s, Sound s → ∃ s', w.flush s = (s', .ok ()) ∧ Sound s' ∧ w.taken s' = w.taken s

/-- As many of the octets have been taken, after those that were there, as there is room for, which
is a success if they are all. -/
structure Fills {ε : Type} (w : Writer State) (Sound : State → Prop) (room : Nat) (s : State)
    (os : Octets) (out : State × Except ε Unit) : Prop where
  sound : Sound out.1
  taken_eq : w.taken out.1 = (w.taken s ++ os).take room
  ok_iff : out.2 = .ok () ↔ (w.taken s ++ os).length ≤ room

section Fills
variable {w : Writer State} {Sound : State → Prop} {room : Nat} {s s' : State} {os os' : Octets}

theorem Fills.taken_of_ok {ε : Type} (h : Fills (ε := ε) w Sound room s os (s', .ok ())) :
    w.taken s' = w.taken s ++ os :=
  h.taken_eq.trans (List.take_of_length_le (h.ok_iff.mp rfl))

theorem Fills.append {ε : Type} {out : State × Except ε Unit}
    (hs : w.taken s' = w.taken s ++ os) (h : Fills w Sound room s' os' out) :
    Fills w Sound room s (os ++ os') out := by
  have hall : w.taken s ++ (os ++ os') = w.taken s' ++ os' := by rw [hs, List.append_assoc]
  constructor
  · exact h.sound
  · rw [hall, h.taken_eq]
  · rw [hall, h.ok_iff]

/-- What comes after a failure is not offered any more. -/
theorem Fills.append_of_error {ε ε' : Type} {e : ε} (h : Fills w Sound room s os (s', .error e))
    (os' : Octets) (e' : ε') : Fills w Sound room s (os ++ os') (s', .error e') := by
  have hlong : room < (w.taken s ++ os).length := by
    apply Nat.lt_of_not_le
    intro hle
    cases h.ok_iff.mpr hle
  constructor
  · exact h.sound
  · rw [h.taken_eq, ← List.append_assoc, List.take_append_of_le_length (Nat.le_of_lt hlong)]
  · refine iff_of_false nofun ?_
    rw [← List.append_assoc, List.length_append]
    omega

theorem fills_nil {ε : Type} (hs : Sound s) (hle : (w.taken s).length ≤ room) :
    Fills (ε := ε) w Sound room s [] (s, .ok ()) := by
  constructor
  · exact hs
  · rw [List.append_nil, List.take_of_length_le hle]
  · rw [List.append_nil]
    exact iff_of_true rfl hle

theorem fills_of_full {e : IoError} (hs : Sound s') (ht : w.taken s' = w.taken s)
    (hfull : (w.taken s).length = room) (hne : os ≠ []) :
    Fills w Sound room s os (s', .error e) := by
  have hpos := List.length_pos_of_ne_nil hne
  constructor
  · exact hs
  · rw [ht, ← hfull, List.take_left]
  · refine iff_of_false nofun ?_
    rw [List.length_append]
    omega

end Fills

section Limited
variable {w : Writer State} {Sound : State → Prop} {room : Nat} (h : w.Limited Sound room)
include h

theorem Limited.fills_writeAll {s : State} (hs : Sound s) (os : Octets) :
    w.Fills Sound room s os (w.writeAll s os) := by
  induction hn : os.length using Nat.strong_induction_on generalizing s os with
  | h n ih =>
    subst hn
    cases os with
    | nil =>
      rw [writeAll]
      exact fills_nil hs (h.length_le s hs)
    | cons b rest =>
      rw [writeAll]
      rcases Nat.lt_or_eq_of_le (h.length_le s hs) with hroom | hfull
      · obtain ⟨s', n, hw, hpos, hle, hs', ht⟩ := h.accepts s _ hs hroom (List.cons_ne_nil b rest)
        obtain ⟨k, rfl⟩ := Nat.exists_eq_succ_of_ne_zero (Nat.ne_of_gt hpos)
        have hshort : (rest.drop k).length < (b :: rest).length := by
          rw [List.length_drop, List.length_cons]
          omega
        have hrest := ih _ hshort hs' (rest.drop k) rfl
        have hall := hrest.append ht
        rw [List.take_succ_cons, List.cons_append, List.take_append_drop] at hall
        rw [hw]
        exact hall
      · obtain ⟨s', hs', ht, hw | ⟨cause, hw⟩⟩ := h.refuses s _ hs hfull (List.cons_ne_nil b rest)
        · rw [hw]
          exact fills_of_full hs' ht hfull (List.cons_ne_nil b rest)
        · rw [hw]
          exact fills_of_full hs' ht hfull (List.cons_ne_nil b rest)

theorem Limited.fills_flush {s : State} (hs : Sound s) :
    w.Fills Sound room s [] (w.writeLines s []) := by
  obtain ⟨s', hf, hs', ht⟩ := h.flushes s hs
  have hnil : w.Fills Sound room s' [] (s', (.ok () : Except StreamError Unit)) :=
    fills_nil hs' (h.length_le s' hs')
  have hkept : w.taken s' = w.taken s ++ [] := by rw [ht, List.append_nil]
  rw [writeLines, hf]
  exact hnil.append hkept

theorem Limited.fills_writeLines {s : State} (hs : Sound s) (lines : List String) :
    w.Fills Sound room s (total lines) (w.writeLines s lines) := by
  induction lines generalizing s with
  | nil => exact h.fills_flush hs
  | cons line rest ih =>
    have hline := h.fills_writeAll hs (Octets.ofText line)
    rw [writeLines, total_cons]
    generalize w.writeAll s (Octets.ofText line) = afterLine at hline ⊢
    rcases afterLine with ⟨s₁, cause | _⟩
    · exact hline.append_of_error _ _
    have hfeed := h.fills_writeAll hline.sound (Octets.ofText "\n")
    dsimp only at hfeed ⊢
    generalize w.writeAll s₁ (Octets.ofText "\n") = afterFeed at hfeed ⊢
    rcases afterFeed with ⟨s₂, cause | _⟩
    · exact (hfeed.append_of_error _ _).append hline.taken_of_ok
    · exact ((ih hfeed.sound).append hfeed.taken_of_ok).append hline.taken_of_ok

end Limited

theorem writeLines_error {w : Writer State} {s s' : State} {lines : List String} {e : StreamError}
    (h : w.writeLines s lines = (s', .error e)) : ∃ cause, e = .write cause := by
  induction lines generalizing s with
  | nil =>
    rw [writeLines] at h
    split at h
    · cases h
      exact ⟨_, rfl⟩
    · cases h
  | cons line rest ih =>
    rw [writeLines] at h
    split at h
    · cases h
      exact ⟨_, rfl⟩
    split at h
    · cases h
      exact ⟨_, rfl⟩
    · exact ih h

end Writer

theorem total_eq (lines : List String) : total lines = Octets.ofText (Text.joinLines lines) := by
  induction lines with
  | nil => simp [total, Text.joinLines, Octets.ofText]
  | cons line rest ih =>
    rw [total_cons, ih, Text.joinLines, Octets.ofText_append, Octets.ofText_append,
      List.append_assoc]

/-- What has been taken of the lines where there was this much room, and how writing them went. -/
structure Delivered (room : Nat) (lines : List String) (taken : Octets)
    (result : Except StreamError Unit) : Prop where
  taken_eq : taken = (total lines).take room
  ok_iff : result = .ok () ↔ (total lines).length ≤ room
  error : room < (total lines).length → ∃ cause, result = .error (.write cause)
  lines_eq : result = .ok () →
    (∀ line ∈ lines, '\n' ∉ line.toList ∧ line.toList.getLast? ≠ some '\r') →
      ∃ text, taken.text? = some text ∧ Text.lines text = lines

namespace Writer

theorem Limited.delivered {State : Type} {w : Writer State} {Sound : State → Prop} {room : Nat}
    (h : w.Limited Sound room) {s : State} (hs : Sound s) (hempty : w.taken s = [])
    (lines : List String) :
    Delivered room lines (w.taken (w.writeLines s lines).1) (w.writeLines s lines).2 := by
  have hfills := h.fills_writeLines hs lines
  have htaken := hfills.taken_eq
  have hok := hfills.ok_iff
  rw [hempty, List.nil_append] at htaken hok
  constructor
  · exact htaken
  · exact hok
  · intro hlong
    cases hresult : (w.writeLines s lines).2 with
    | ok _ =>
      have hle := hok.mp hresult
      omega
    | error e =>
      obtain ⟨cause, rfl⟩ := writeLines_error (Prod.ext rfl hresult)
      exact ⟨cause, rfl⟩
  · intro hresult hlines
    have hread := Text.lines_joinLines_append hlines ""
    rw [String.append_empty] at hread
    refine ⟨Text.joinLines lines, ?_, ?_⟩
    · rw [htaken, List.take_of_length_le (hok.mp hresult), total_eq, Octets.text?_ofText]
    · rw [hread]
      exact List.append_nil lines

end Writer

namespace Sink

/-- A sink takes as much of a request as there is room for, and fails once there is none. -/
def writer : Writer Sink where
  taken := taken
  write s os :=
    match s.room with
    | none => ((s.write os).1, .ok os.length)
    | some 0 => (s, .error .noRoom)
    | some (n + 1) => ((s.write os).1, .ok (min (n + 1) os.length))
  flush s := (s, .ok ())

/-- There is as much room left as the octets that were taken have left of it. -/
def HasRoom (room : Nat) (s : Sink) : Prop :=
  s.taken.length ≤ room ∧ s.room = some (room - s.taken.length)

theorem HasRoom.write {room : Nat} {s : Sink} (h : s.HasRoom room) (os : Octets) :
    (s.write os).1.HasRoom room := by
  obtain ⟨hle, hroom⟩ := h
  simp only [HasRoom, Sink.write, hroom, List.length_append, List.length_take]
  refine ⟨by omega, congrArg some ?_⟩
  omega

theorem limited_writer (room : Nat) : writer.Limited (HasRoom room) room := by
  constructor
  · intro s hs
    exact hs.1
  · intro s os hs hlt hne
    have hlen := List.length_pos_of_ne_nil hne
    obtain ⟨k, hk⟩ := Nat.exists_eq_succ_of_ne_zero (Nat.sub_ne_zero_of_lt hlt)
    have hroom : s.room = some (k + 1) := hs.2.trans (congrArg some hk)
    have htake : os.take (k + 1) = os.take (min (k + 1) os.length) :=
      (List.take_eq_take_iff.mpr (by omega)).symm
    refine ⟨(s.write os).1, min (k + 1) os.length, ?_, by omega, by omega, hs.write os, ?_⟩
    · simp only [writer, hroom]
    · rw [← htake]
      simp only [writer, Sink.write, hroom]
  · intro s os hs hfull hne
    have hroom : s.room = some 0 := by
      rw [hs.2]
      exact congrArg some (Nat.sub_eq_zero_of_le (Nat.le_of_eq hfull.symm))
    exact ⟨s, hs, rfl, Or.inr ⟨.noRoom, by simp only [writer, hroom]⟩⟩
  · intro s hs
    exact ⟨s, rfl, hs, rfl⟩

theorem writeAll_writer (s : Sink) (os : Octets) :
    writer.writeAll s os =
      ((s.write os).1, if (s.write os).2 = true then .ok () else .error .noRoom) := by
  rcases s with ⟨taken, _ | _ | n⟩ <;> cases os with
  | nil => simp [Writer.writeAll, Sink.write]
  | cons b rest => ?_
  · simp [Writer.writeAll, writer, Sink.write]
  · simp [Writer.writeAll, writer, Sink.write]
  · rcases Nat.lt_or_ge n rest.length with hlt | hle
    · have hleft : n - rest.length = 0 := by omega
      have hnext : ∃ d ds, rest.drop n = d :: ds :=
        List.exists_cons_of_ne_nil (by simpa using hlt)
      obtain ⟨d, ds, hdrop⟩ := hnext
      simp [Writer.writeAll, writer, Sink.write, Nat.min_eq_left (Nat.le_of_lt hlt), hdrop, hleft,
        Nat.not_le_of_lt hlt]
    · simp [Writer.writeAll, writer, Sink.write, hle]

end Sink

theorem emit_eq_writeLines (s : Sink) (lines : List String) :
    emit s lines = Sink.writer.writeLines s lines := by
  induction lines generalizing s with
  | nil => rfl
  | cons line rest ih =>
    rw [emit, Writer.writeLines, Sink.writeAll_writer]
    generalize s.write (Octets.ofText line) = afterLine
    rcases afterLine with ⟨s₁, _ | _⟩
    · rfl
    simp only [Sink.writeAll_writer, if_true]
    generalize s₁.write (Octets.ofText "\n") = afterFeed
    rcases afterFeed with ⟨s₂, _ | _⟩
    · rfl
    · exact ih s₂

theorem delivered_emit (room : Nat) (lines : List String) :
    Delivered room lines (emit (.bounded room) lines).1.taken (emit (.bounded room) lines).2 := by
  rw [emit_eq_writeLines]
  have hroom : (Sink.bounded room).HasRoom room := ⟨Nat.zero_le room, rfl⟩
  exact (Sink.limited_writer room).delivered hroom rfl lines

/-- Lines that are written to a writer of limited room leave there as many of their octets as fit,
and it is a success if these are all of them, after which they can be read again. -/
theorem writeLines_delivered :
    (∀ (State : Type) (w : Writer State) (Sound : State → Prop) (room : Nat) (s : State)
      (lines : List String), w.Limited Sound room → Sound s → w.taken s = [] →
        Delivered room lines (w.taken (w.writeLines s lines).1) (w.writeLines s lines).2) ∧
    ∀ room lines,
      Delivered room lines (emit (.bounded room) lines).1.taken (emit (.bounded room) lines).2 := by
  constructor
  · intro State w Sound room s lines h hs hempty
    exact h.delivered hs hempty lines
  · exact delivered_emit

/-- Takes two octets of a request, as long as there is room for them. -/
def Writer.byTwos (room : Nat) : Writer Octets where
  taken held := held
  write held os :=
    if held.length < room then
      let n := min (min 2 os.length) (room - held.length)
      (held ++ os.take n, .ok n)
    else (held, .error .noRoom)
  flush held := (held, .ok ())

theorem Writer.limited_byTwos (room : Nat) :
    (byTwos room).Limited (fun held => held.length ≤ room) room := by
  constructor
  · intro held hle
    exact hle
  · intro held os hle hlt hne
    have hlen := List.length_pos_of_ne_nil hne
    change held.length < room at hlt
    refine ⟨_, _, if_pos hlt, by omega, by omega, ?_, rfl⟩
    rw [List.length_append, List.length_take]
    omega
  · intro held os hle hfull hne
    change held.length = room at hfull
    exact ⟨held, hle, rfl, Or.inr ⟨.noRoom, if_neg (by omega)⟩⟩
  · intro held hle
    exact ⟨held, rfl, hle, rfl⟩

/-- The fourth octet is in the middle of a character, the seventh is the last of all. -/
theorem writeLines_delivered_by_twos :
    (Writer.byTwos 4).Limited (fun held => held.length ≤ 4) 4 ∧
    ((Writer.byTwos 4).writeLines [] ["é€", ""]).1 = [0xc3, 0xa9, 0xe2, 0x82] ∧
    (∃ cause, ((Writer.byTwos 4).writeLines [] ["é€", ""]).2 = .error (.write cause)) ∧
    (Writer.byTwos 7).Limited (fun held => held.length ≤ 7) 7 ∧
    ((Writer.byTwos 7).writeLines [] ["é€", ""]).2 = .ok () ∧
    (∃ text, Octets.text? ((Writer.byTwos 7).writeLines [] ["é€", ""]).1 = some text ∧
      Text.lines text = ["é€", ""]) := by
  have hfour := Writer.limited_byTwos 4
  have hseven := Writer.limited_byTwos 7
  have hlines : ∀ line ∈ ["é€", ""], '\n' ∉ line.toList ∧ line.toList.getLast? ≠ some '\r' := by
    decide +kernel
  have hcut := writeLines_delivered.1 _ _ _ _ [] ["é€", ""] hfour (Nat.zero_le 4) rfl
  have hall := writeLines_delivered.1 _ _ _ _ [] ["é€", ""] hseven (Nat.zero_le 7) rfl
  have hok := hall.ok_iff.mpr (by decide +kernel)
  have hfront : (total ["é€", ""]).take 4 = [0xc3, 0xa9, 0xe2, 0x82] := by decide +kernel
  exact ⟨hfour, hcut.taken_eq.trans hfront, hcut.error (by decide +kernel), hseven, hok,
    hall.lines_eq hok hlines⟩

end Pinout.Stream
