/-!
Lines of a text. A line ends at a line feed, together with the carriage return just before it if
there is one; a text that ends with a line feed has no empty line after it.
-/

namespace Pinout.Text

def splitLines : List Char → List (List Char)
  | [] => []
  | '\r' :: '\n' :: cs => [] :: splitLines cs
  | '\n' :: cs => [] :: splitLines cs
  | c :: cs =>
    match splitLines cs with
    | [] => [[c]]
    | l :: ls => (c :: l) :: ls

def lines (s : String) : List String := (splitLines s.toList).map String.ofList

theorem newline_not_mem_splitLines {cs l : List Char} (h : l ∈ splitLines cs) : '\n' ∉ l := by
  fun_induction splitLines cs generalizing l with
  | case1 => simp at h
  | case2 cs ih =>
    rcases List.mem_cons.mp h with rfl | h
    · simp
    · exact ih h
  | case3 cs ih =>
    rcases List.mem_cons.mp h with rfl | h
    · simp
    · exact ih h
  | case4 c cs _ hc hs ih =>
    rw [List.mem_singleton] at h
    subst h
    simpa [eq_comm] using hc
  | case5 c cs _ hc d ds hs ih =>
    rw [hs] at ih
    rcases List.mem_cons.mp h with rfl | h
    · rw [List.mem_cons, not_or]
      exact ⟨fun he => hc he.symm, ih List.mem_cons_self⟩
    · exact ih (List.mem_cons_of_mem d h)

theorem newline_not_mem_lines {s line : String} (h : line ∈ lines s) : '\n' ∉ line.toList := by
  obtain ⟨l, hl, rfl⟩ := List.mem_map.mp h
  rw [String.toList_ofList]
  exact newline_not_mem_splitLines hl

/-- Every line with a line feed after it. -/
def joinLines : List String → String
  | [] => ""
  | l :: ls => l ++ "\n" ++ joinLines ls

theorem joinLines_append (ls ms : List String) :
    joinLines (ls ++ ms) = joinLines ls ++ joinLines ms := by
  induction ls with
  | nil => simp [joinLines]
  | cons l ls ih => simp [joinLines, ih, String.append_assoc]

/-- A line feed between every two of the texts. -/
def stack (ls : List String) : String := "\n".intercalate ls

end Pinout.Text
