import Mathlib.Data.List.DropRight
import Pinout.File.Stream
import Pinout.Text.Blank

/-!
Lines that are written one after the other and read again. Reading takes the white space at both
ends of a text away first, so the lines come back if none of it belongs to them.
-/

namespace Pinout.Text

theorem trimEnd_isPrefix (cs : List Char) : trimEnd cs <+: cs :=
  List.rdropWhile_prefix isSpace cs

theorem trimStart_isSuffix (cs : List Char) : trimStart cs <:+ cs :=
  List.dropWhile_suffix isSpace

theorem mem_of_mem_trimChars {cs : List Char} {c : Char} (h : c ∈ trimChars cs) : c ∈ cs :=
  (trimStart_isSuffix cs).subset ((trimEnd_isPrefix (trimStart cs)).subset h)

theorem trimStart_of_isPrefix {cs ds : List Char} (hs : trimStart cs = cs) (hp : ds <+: cs) :
    trimStart ds = ds := by
  cases ds with
  | nil => rfl
  | cons d ds =>
    obtain ⟨rest, rfl⟩ := hp
    cases hd : isSpace d with
    | false => exact trimStart_of_head hd ds
    | true =>
      -- the longer text would lose its first character as well
      have hlong : trimStart (ds ++ rest) = d :: ds ++ rest := by
        rw [← hs]
        simp [trimStart, hd]
      have hlen := (trimStart_isSuffix (ds ++ rest)).length_le
      rw [hlong, List.length_append, List.length_append, List.length_cons] at hlen
      omega

theorem trimChars_trimChars (cs : List Char) : trimChars (trimChars cs) = trimChars cs := by
  have hstart : trimStart (trimChars cs) = trimChars cs := by
    apply trimStart_of_isPrefix _ (trimEnd_isPrefix (trimStart cs))
    exact List.dropWhile_idempotent isSpace cs
  calc trimChars (trimChars cs) = trimEnd (trimStart (trimChars cs)) := rfl
    _ = trimEnd (trimChars cs) := by rw [hstart]
    _ = trimChars cs := List.rdropWhile_idempotent isSpace (trimStart cs)

theorem trim_trim (s : String) : trim (trim s) = trim s := by
  rw [trim, toList_trim, trimChars_trimChars, trim]

theorem trimEnd_concat_space {c : Char} (h : isSpace c = true) (cs : List Char) :
    trimEnd (cs ++ [c]) = trimEnd cs :=
  List.rdropWhile_concat_pos isSpace cs c h

theorem splitLines_cons {c : Char} {cs : List Char} (hn : c ≠ '\n')
    (hr : c = '\r' → ∀ ds, cs ≠ '\n' :: ds) :
    splitLines (c :: cs) = match splitLines cs with
      | [] => [[c]]
      | l :: ls => (c :: l) :: ls := by
  rw [splitLines.eq_def (c :: cs)]
  split
  case h_1 h => cases h
  case h_2 ds h =>
    obtain ⟨rfl, rfl⟩ := List.cons.inj h
    exact absurd rfl (hr rfl ds)
  case h_3 ds h =>
    obtain ⟨rfl, rfl⟩ := List.cons.inj h
    exact absurd rfl hn
  case h_4 d ds _ _ h =>
    obtain ⟨rfl, rfl⟩ := List.cons.inj h
    rfl

theorem splitLines_of_not_mem {l : List Char} (hne : l ≠ []) (hn : '\n' ∉ l) :
    splitLines l = [l] := by
  induction l with
  | nil => exact absurd rfl hne
  | cons c l ih =>
    rw [List.mem_cons, not_or] at hn
    have hr : c = '\r' → ∀ ds, l ≠ '\n' :: ds := by
      rintro _ ds rfl
      exact hn.2 List.mem_cons_self
    rw [splitLines_cons (Ne.symm hn.1) hr]
    cases l with
    | nil => rfl
    | cons d l => rw [ih (by simp) hn.2]

/-- A line ends at the first line feed; its own end must not look like a part of the line end. -/
theorem splitLines_append_newline {l : List Char} (hn : '\n' ∉ l) (hr : l.getLast? ≠ some '\r')
    (rest : List Char) : splitLines (l ++ '\n' :: rest) = l :: splitLines rest := by
  induction l with
  | nil => rfl
  | cons c l ih =>
    rw [List.mem_cons, not_or] at hn
    cases l with
    | nil =>
      have hc : c ≠ '\r' := by simpa using hr
      rw [List.singleton_append, splitLines_cons (Ne.symm hn.1) fun he => absurd he hc, splitLines]
    | cons d l =>
      have hd : c = '\r' → ∀ ds, d :: l ++ '\n' :: rest ≠ '\n' :: ds := by
        rintro _ ds he
        rw [List.cons_append, List.cons.injEq] at he
        exact hn.2 (he.1 ▸ List.mem_cons_self)
      rw [List.getLast?_cons_cons] at hr
      rw [List.cons_append, splitLines_cons (Ne.symm hn.1) hd, ih hn.2 hr]

theorem mem_of_mem_splitLines {cs l : List Char} {c : Char} (hl : l ∈ splitLines cs)
    (hc : c ∈ l) : c ∈ cs := by
  fun_induction splitLines cs generalizing l with
  | case1 => simp at hl
  | case2 cs ih =>
    rcases List.mem_cons.mp hl with rfl | hl
    · simp at hc
    · exact List.mem_cons_of_mem _ (List.mem_cons_of_mem _ (ih hl hc))
  | case3 cs ih =>
    rcases List.mem_cons.mp hl with rfl | hl
    · simp at hc
    · exact List.mem_cons_of_mem _ (ih hl hc)
  | case4 d cs _ _ hs ih =>
    rw [List.mem_singleton] at hl
    subst hl
    rw [List.mem_singleton] at hc
    exact hc ▸ List.mem_cons_self
  | case5 d cs _ _ m ms hs ih =>
    rw [hs] at ih
    rcases List.mem_cons.mp hl with rfl | hl
    · rcases List.mem_cons.mp hc with rfl | hc
      · exact List.mem_cons_self
      · exact List.mem_cons_of_mem d (ih List.mem_cons_self hc)
    · exact List.mem_cons_of_mem d (ih (List.mem_cons_of_mem m hl) hc)

theorem mem_of_mem_lines {s line : String} {c : Char} (hl : line ∈ lines s)
    (hc : c ∈ line.toList) : c ∈ s.toList := by
  obtain ⟨l, hsplit, rfl⟩ := List.mem_map.mp hl
  rw [String.toList_ofList] at hc
  exact mem_of_mem_splitLines hsplit hc

/-- Lines written in front of a text are the first lines of the whole. -/
theorem lines_joinLines_append {ls : List String}
    (h : ∀ l ∈ ls, '\n' ∉ l.toList ∧ l.toList.getLast? ≠ some '\r') (s : String) :
    lines (joinLines ls ++ s) = ls ++ lines s := by
  induction ls with
  | nil => simp [joinLines]
  | cons l ls ih =>
    obtain ⟨hn, hr⟩ := h l List.mem_cons_self
    have hrest := ih fun m hm => h m (List.mem_cons_of_mem l hm)
    have hsplit : splitLines (joinLines (l :: ls) ++ s).toList =
        l.toList :: splitLines (joinLines ls ++ s).toList := by
      rw [← splitLines_append_newline hn hr]
      simp [joinLines]
    rw [lines, hsplit, List.map_cons, String.ofList_toList, List.cons_append, ← hrest, lines]

theorem lines_of_not_mem {s : String} (hne : s ≠ "") (hn : '\n' ∉ s.toList) : lines s = [s] := by
  have hchars : s.toList ≠ [] := by simpa using hne
  rw [lines, splitLines_of_not_mem hchars hn, List.map_singleton, String.ofList_toList]

/-- A text that begins and ends in other characters than white space loses only the line feed that
was written after it. -/
theorem trim_append_newline {s : String} {c d : Char} {front back : List Char}
    (hfront : s.toList = c :: back) (hc : isSpace c = false) (hback : s.toList = front ++ [d])
    (hd : isSpace d = false) : trim (s ++ "\n") = s := by
  have hstart : trimStart (s.toList ++ ['\n']) = s.toList ++ ['\n'] := by
    rw [hfront, List.cons_append]
    exact trimStart_of_head hc _
  have hend : trimEnd (s.toList ++ ['\n']) = s.toList := by
    rw [trimEnd_concat_space (by decide), hback]
    exact trimEnd_concat hd front
  have hchars : (s ++ "\n").toList = s.toList ++ ['\n'] := String.toList_append
  rw [trim, hchars, trimChars, hstart, hend, String.ofList_toList]

/-- Lines that are written and read again come back if the first begins and the last ends in another
character than white space. -/
theorem lines_trim_joinLines {ls : List String} {first last : String} {c d : Char}
    {front back : List Char} (hls : ∀ l ∈ ls, '\n' ∉ l.toList ∧ l.toList.getLast? ≠ some '\r')
    (hfirst : ls.head? = some first) (hfront : first.toList = c :: back) (hc : isSpace c = false)
    (hlast : ls.getLast? = some last) (hback : last.toList = front ++ [d])
    (hd : isSpace d = false) : lines (trim (joinLines ls)) = ls := by
  obtain ⟨init, rfl⟩ := List.getLast?_eq_some_iff.mp hlast
  have hwritten : joinLines (init ++ [last]) = joinLines init ++ last ++ "\n" := by
    simp [joinLines_append, joinLines, String.append_assoc]
  have hbegin : ∃ rest, (joinLines init ++ last).toList = c :: rest := by
    cases init with
    | nil =>
      cases hfirst
      exact ⟨back, by simp [joinLines, hfront]⟩
    | cons l init =>
      cases hfirst
      exact ⟨_, by simp [joinLines, hfront]; rfl⟩
  obtain ⟨rest, hrest⟩ := hbegin
  have hfinish : (joinLines init ++ last).toList = (joinLines init).toList ++ front ++ [d] := by
    simp [hback]
  have hne : last ≠ "" := by
    rintro rfl
    simp at hback
  rw [hwritten, trim_append_newline hrest hc hfinish hd,
    lines_joinLines_append fun l hl => hls l (List.mem_append_left _ hl),
    lines_of_not_mem hne (hls last (by simp)).1]

end Pinout.Text

namespace Pinout.Stream

/-- Without a bound every line is taken. -/
theorem emit_unbounded (taken : Octets) (lines : List String) :
    emit ⟨taken, none⟩ lines = (⟨taken ++ Octets.ofText (Text.joinLines lines), none⟩, .ok ()) := by
  induction lines generalizing taken with
  | nil => simp [emit, Text.joinLines, Octets.ofText]
  | cons l ls ih =>
    simp only [emit, Sink.write]
    rw [ih, Text.joinLines, Octets.ofText_append, Octets.ofText_append]
    simp only [List.append_assoc]

end Pinout.Stream
