import Pinout.Proofs.ListedContents
import Pinout.Proofs.SwappedBindings

/-!
Bindings with listed contents. What a side resolves to may stand there index by index instead,
whether the other side goes by it or it goes by the other side.
-/

namespace Pinout

namespace Binding

open Specifier (listing decimals)

def withLeft (b : Binding) (text : String) : Binding := ⟨⟨b.left.name, text⟩, b.right⟩

def withRight (b : Binding) (text : String) : Binding := ⟨b.left, ⟨b.right.name, text⟩⟩

variable {b : Binding} {is js : List Index} {text : String} {s : Specifier}

theorem Contents.withLeft (h : b.Contents is js) (hs : Specifier.resolve text = .ok s)
    (he : s.family = .explicit) (hc : s.content = some is) :
    (b.withLeft text).Contents is js := by
  obtain ⟨left, right, hres, hp⟩ := contents_iff.mp h
  apply contents_iff.mpr
  refine ⟨s, right, ⟨hs, hres.right⟩, ?_⟩
  cases hp with
  | explicit _ hr _ hjs => exact .explicit he hr hc hjs
  | left _ hr hjs _ => exact .explicit he hr hc hjs
  -- the right side borrows from the same indices as before
  | right _ hr _ hx => exact .right he hr hc hx

theorem Contents.withRight (h : b.Contents is js) (hs : Specifier.resolve text = .ok s)
    (he : s.family = .explicit) (hc : s.content = some js) :
    (b.withRight text).Contents is js := by
  have hswap := h.swap.withLeft hs he hc
  exact hswap.swap

theorem Contents.expand_eq_ok_iff (h : b.Contents is js) {rows : List String} :
    b.expand = .ok rows ↔ is.length = js.length ∧ rows = List.zipWith b.row is js := by
  obtain ⟨left, right, hres, hp⟩ := contents_iff.mp h
  rw [hres.expand_of_paired hp]
  split
  · rename_i hlen
    rw [Except.ok.injEq, and_iff_right hlen, eq_comm]
  · rename_i hne
    exact iff_of_false nofun fun hall => hne hall.1

/-- Any side of a binding with rows, and both sides, may be replaced by the list of its indices. -/
theorem expand_listed {rows : List String} (h : b.expand = .ok rows) (hc : b.Contents is js)
    (his : is ≠ []) (hjs : js ≠ []) :
    Specifier.resolve (listing is) = .ok ⟨listing is, .list, decimals is, some is⟩ ∧
    Specifier.resolve (listing js) = .ok ⟨listing js, .list, decimals js, some js⟩ ∧
    (b.withLeft (listing is)).expand = .ok rows ∧
    (b.withRight (listing js)).expand = .ok rows ∧
    ((b.withLeft (listing is)).withRight (listing js)).expand = .ok rows := by
  have hl := Specifier.resolve_listing his
  have hr := Specifier.resolve_listing hjs
  have hrows := hc.expand_eq_ok_iff.mp h
  have hleft : (b.withLeft (listing is)).Contents is js := hc.withLeft hl rfl rfl
  have hright : (b.withRight (listing js)).Contents is js := hc.withRight hr rfl rfl
  have hboth : ((b.withLeft (listing is)).withRight (listing js)).Contents is js :=
    hleft.withRight hr rfl rfl
  refine ⟨hl, hr, ?_, ?_, ?_⟩
  · exact hleft.expand_eq_ok_iff.mpr hrows
  · exact hright.expand_eq_ok_iff.mpr hrows
  · exact hboth.expand_eq_ok_iff.mpr hrows

theorem expand_listed_at_limit :
    expand ⟨⟨"x", " #..07"⟩, ⟨"y", "18446744073709551614:1:1"⟩⟩ =
      .ok ["x[7], y[18446744073709551614]", "x[6], y[18446744073709551615]"] ∧
    Contents ⟨⟨"x", " #..07"⟩, ⟨"y", "18446744073709551614:1:1"⟩⟩ [7, 6]
      [18446744073709551614, 18446744073709551615] ∧
    ([7, 6] : List Index) ≠ [] ∧
    ([18446744073709551614, 18446744073709551615] : List Index) ≠ [] ∧
    listing [18446744073709551614, 18446744073709551615] =
      "18446744073709551614,18446744073709551615" ∧
    expand ⟨⟨"x", listing [7, 6]⟩, ⟨"y", "18446744073709551614:1:1"⟩⟩ =
      .ok ["x[7], y[18446744073709551614]", "x[6], y[18446744073709551615]"] ∧
    expand ⟨⟨"x", " #..07"⟩,
        ⟨"y", listing [18446744073709551614, 18446744073709551615]⟩⟩ =
      .ok ["x[7], y[18446744073709551614]", "x[6], y[18446744073709551615]"] := by
  have hrows : expand ⟨⟨"x", " #..07"⟩, ⟨"y", "18446744073709551614:1:1"⟩⟩ =
      .ok ["x[7], y[18446744073709551614]", "x[6], y[18446744073709551615]"] := by
    decide +kernel
  have hcontents : Contents ⟨⟨"x", " #..07"⟩, ⟨"y", "18446744073709551614:1:1"⟩⟩ [7, 6]
      [18446744073709551614, 18446744073709551615] :=
    ⟨⟨"#..07", .countDown, ["07"], some [7, 6]⟩,
      ⟨"18446744073709551614:1:1", .stride, ["18446744073709551614", "1", "1"],
        some [18446744073709551614, 18446744073709551615]⟩,
      by decide +kernel, rfl, rfl⟩
  have hleft : ([7, 6] : List Index) ≠ [] := by simp
  have hright : ([18446744073709551614, 18446744073709551615] : List Index) ≠ [] := by simp
  obtain ⟨_, _, hlistLeft, hlistRight, _⟩ := expand_listed hrows hcontents hleft hright
  exact ⟨hrows, hcontents, hleft, hright, by decide +kernel, hlistLeft, hlistRight⟩

end Binding

end Pinout
