import Pinout.Pinfile.Build
import Pinout.Proofs.WrittenLines

/-!
Line ends, and white space around a text. A text has the same lines whether they end in a line feed
alone or in a carriage return and a line feed, and none of them holds what was trimmed away; so
nothing that is made of the lines can tell these texts apart.
-/

namespace Pinout

namespace Text

def withReturn (c : Char) : List Char := if c = '\n' then ['\r', '\n'] else [c]

/-- Every line feed with a carriage return before it. -/
def withReturns (cs : List Char) : List Char := cs.flatMap withReturn

def crlf (s : String) : String := String.ofList (withReturns s.toList)

theorem withReturn_of_ne {c : Char} (h : c ≠ '\n') : withReturn c = [c] := if_neg h

theorem withReturns_newline (cs : List Char) :
    withReturns ('\n' :: cs) = '\r' :: '\n' :: withReturns cs := rfl

theorem withReturns_cons {c : Char} (h : c ≠ '\n') (cs : List Char) :
    withReturns (c :: cs) = c :: withReturns cs := by
  rw [withReturns, List.flatMap_cons, withReturn_of_ne h]
  rfl

theorem withReturns_append (cs ds : List Char) :
    withReturns (cs ++ ds) = withReturns cs ++ withReturns ds :=
  List.flatMap_append

theorem isSpace_of_mem_withReturn {c d : Char} (hc : isSpace c = true) (hd : d ∈ withReturn c) :
    isSpace d = true := by
  unfold withReturn at hd
  split at hd
  · rcases List.mem_cons.mp hd with rfl | hd
    · decide
    · rw [List.mem_singleton.mp hd]
      decide
  · rwa [List.mem_singleton.mp hd]

theorem ne_newline_of_not_isSpace {c : Char} (h : isSpace c = false) : c ≠ '\n' := by
  intro hc
  subst hc
  cases h

theorem trimStart_append {w : List Char} (hw : ∀ c ∈ w, isSpace c = true) (cs : List Char) :
    trimStart (w ++ cs) = trimStart cs :=
  List.dropWhile_append_of_pos hw

theorem trimEnd_append {w : List Char} (hw : ∀ c ∈ w, isSpace c = true) (cs : List Char) :
    trimEnd (cs ++ w) = trimEnd cs := by
  rw [trimEnd, List.reverse_append, List.dropWhile_append_of_pos, trimEnd]
  intro c hc
  exact hw c (List.mem_reverse.mp hc)

/-- White space around a text is trimmed away with that at its ends. -/
theorem trimChars_append {w w' : List Char} (hw : ∀ c ∈ w, isSpace c = true)
    (hw' : ∀ c ∈ w', isSpace c = true) (cs : List Char) :
    trimChars (w ++ cs ++ w') = trimChars cs := by
  rw [List.append_assoc, trimChars, trimStart_append hw, trimChars, trimStart,
    List.dropWhile_append]
  split
  · rename_i hnil
    -- a text of white space only leaves nothing, and neither does what follows it
    rw [trimStart, List.isEmpty_iff.mp hnil, List.dropWhile_eq_nil_iff.mpr hw']
  · exact trimEnd_append hw' _

theorem trimStart_withReturns (cs : List Char) :
    trimStart (withReturns cs) = withReturns (trimStart cs) := by
  induction cs with
  | nil => rfl
  | cons c cs ih =>
    cases hc : isSpace c with
    | true =>
      have hfront : ∀ d ∈ withReturn c, isSpace d = true := fun d hd =>
        isSpace_of_mem_withReturn hc hd
      calc trimStart (withReturns (c :: cs))
          = trimStart (withReturns cs) := trimStart_append hfront (withReturns cs)
        _ = withReturns (trimStart cs) := ih
        _ = withReturns (trimStart (c :: cs)) := by
            rw [trimStart, trimStart, List.dropWhile_cons_of_pos hc]
    | false =>
      have hn := ne_newline_of_not_isSpace hc
      rw [withReturns_cons hn, trimStart_of_head hc, trimStart_of_head hc, withReturns_cons hn]

theorem trimEnd_withReturns (cs : List Char) :
    trimEnd (withReturns cs) = withReturns (trimEnd cs) := by
  induction cs using List.reverseRecOn with
  | nil => rfl
  | append_singleton cs c ih =>
    have hlast : withReturns [c] = withReturn c := List.flatMap_singleton _ _
    rw [withReturns_append, hlast]
    cases hc : isSpace c with
    | true =>
      rw [trimEnd_append (fun d hd => isSpace_of_mem_withReturn hc hd), ih,
        trimEnd_concat_space hc]
    | false =>
      have hn := ne_newline_of_not_isSpace hc
      rw [withReturn_of_ne hn, trimEnd_concat hc, trimEnd_concat hc, withReturns_append, hlast,
        withReturn_of_ne hn]

theorem trimChars_withReturns (cs : List Char) :
    trimChars (withReturns cs) = withReturns (trimChars cs) := by
  rw [trimChars, trimStart_withReturns, trimEnd_withReturns, trimChars]

/-- The carriage return goes with the line feed after it, unless there was one before. -/
theorem splitLines_withReturns {cs : List Char} (h : '\r' ∉ cs) :
    splitLines (withReturns cs) = splitLines cs := by
  induction cs with
  | nil => rfl
  | cons c cs ih =>
    rw [List.mem_cons, not_or] at h
    obtain ⟨hc, hcs⟩ := h
    by_cases hn : c = '\n'
    · subst hn
      rw [withReturns_newline, splitLines, splitLines, ih hcs]
    · have hr : c ≠ '\r' := Ne.symm hc
      rw [withReturns_cons hn, splitLines_cons hn fun he => absurd he hr, ih hcs,
        splitLines_cons hn fun he => absurd he hr]

theorem trim_append {w w' : String} (hw : isBlank w = true) (hw' : isBlank w' = true)
    (s : String) : trim (w ++ s ++ w') = trim s := by
  have hfront : ∀ c ∈ w.toList, isSpace c = true := List.all_eq_true.mp hw
  have hback : ∀ c ∈ w'.toList, isSpace c = true := List.all_eq_true.mp hw'
  rw [trim, String.toList_append, String.toList_append, trimChars_append hfront hback, trim]

theorem lines_trim_crlf {s : String} (h : '\r' ∉ s.toList) :
    lines (trim (crlf s)) = lines (trim s) := by
  have htrimmed : '\r' ∉ trimChars s.toList := fun hmem => h (mem_of_mem_trimChars hmem)
  rw [lines, lines, toList_trim, toList_trim, crlf, String.toList_ofList, trimChars_withReturns,
    splitLines_withReturns htrimmed]

end Text

namespace Pinfile

theorem body_congr {text text' : String} (h : trimmedLines text = trimmedLines text') :
    body text = body text' := by
  rw [body_eq, body_eq, h]

theorem trimmedLines_surrounded {text t w w' : String} (hcr : '\r' ∉ text.toList)
    (hw : Text.isBlank w = true) (hw' : Text.isBlank w' = true)
    (ht : t = text ∨ t = Text.crlf text) : trimmedLines (w ++ t ++ w') = trimmedLines text := by
  rw [trimmedLines, Text.trim_append hw hw', trimmedLines]
  rcases ht with rfl | rfl
  · rfl
  · exact Text.lines_trim_crlf hcr

/-- Neither the kind of the line ends nor white space around the text makes a difference. -/
theorem build_surrounded {text t w w' : String} (hcr : '\r' ∉ text.toList)
    (hw : Text.isBlank w = true) (hw' : Text.isBlank w' = true)
    (ht : t = text ∨ t = Text.crlf text) :
    body (w ++ t ++ w') = body text ∧
    (∀ policy, expand policy (body (w ++ t ++ w')) = expand policy (body text)) ∧
    ∀ table policy, build table policy (w ++ t ++ w') = build table policy text := by
  have hbody := body_congr (trimmedLines_surrounded hcr hw hw' ht)
  refine ⟨hbody, ?_, ?_⟩
  · intro policy
    rw [hbody]
  · intro table policy
    rw [build_eq, hbody, build_eq]

/-- Column titles, a blank line, a binding and a line that cannot be parsed. -/
def gappedText : String := "To, Location\n\nx[0..1], y[..]\n?"

theorem build_surrounded_blank_lines :
    '\r' ∉ gappedText.toList ∧
    Text.isBlank "\u3000\r\n" = true ∧ Text.isBlank "\n \r" = true ∧
    Text.crlf gappedText = "To, Location\r\n\r\nx[0..1], y[..]\r\n?" ∧
    body gappedText = ["", "x[0..1], y[..]", "?"] ∧
    body ("\u3000\r\n" ++ Text.crlf gappedText ++ "\n \r") = body gappedText ∧
    ∀ table policy, build table policy ("\u3000\r\n" ++ Text.crlf gappedText ++ "\n \r") =
      build table policy gappedText := by
  have hcr : '\r' ∉ gappedText.toList := by decide +kernel
  have hfront : Text.isBlank "\u3000\r\n" = true := by decide +kernel
  have hback : Text.isBlank "\n \r" = true := by decide +kernel
  obtain ⟨hbody, _, hbuild⟩ := build_surrounded hcr hfront hback (Or.inr rfl)
  exact ⟨hcr, hfront, hback, by decide +kernel, by decide +kernel, hbody, hbuild⟩

end Pinfile

end Pinout
