import Timetable.Event.Expression
import Timetable.Proofs.Selection.Reached

/-!
Events that operations lead to.

An event is reached if all its selections are. The empty event is, and so is
every event that a text describes: a keyword and an expression only insert.
-/

set_option autoImplicit false

namespace Timetable

namespace Event

/-- An event all of whose selections come from insertions. -/
def Reached (e : Event) : Prop :=
  ∀ c, (e.get c).Reached

/-- An event without restrictions is reached. -/
theorem reached_anytime : anytime.Reached := by
  intro c
  cases c <;> exact .any

/-- Setting a part to a reached selection leaves a reached event. -/
theorem Reached.set {e : Event} (he : e.Reached) (c : Component) {s : Selection c.domain}
    (hs : s.Reached) : (e.set c s).Reached := by
  intro c'
  by_cases hc : c = c'
  · subst hc
    rwa [get_set_self]
  · rw [get_set_of_ne e s hc]
    exact he c'

end Event

namespace Expression

open Selection

/-- Reading lists leaves reached events: days of the week, -/
theorem insertWeekdays_reached {e e' : Event} {list : List Char} (he : e.Reached)
    (h : insertWeekdays e list = .ok e') : e'.Reached := by
  obtain ⟨items, -, h⟩ := bind_eq_ok.mp h
  obtain ⟨s, hs, h⟩ := bind_eq_ok.mp h
  rw [pure_eq_ok] at h
  subst h
  exact he.set .weekday
    (foldlM_preserves (fun _ _ _ hb hb' => hb.insertCyclic hb') (he .weekday) hs)

/-- years, -/
theorem insertYears_reached {e e' : Event} {list : List Char} (he : e.Reached)
    (h : insertYears e list = .ok e') : e'.Reached := by
  obtain ⟨items, -, h⟩ := bind_eq_ok.mp h
  obtain ⟨s, hs, h⟩ := bind_eq_ok.mp h
  rw [pure_eq_ok] at h
  subst h
  exact he.set .year (foldlM_preserves (fun _ _ _ hb hb' => hb.insertItem hb') (he .year) hs)

/-- and the other parts. -/
theorem insertUnit_reached {c : Component} {e e' : Event} {list : List Char} (he : e.Reached)
    (h : insertUnit c e list = .ok e') : e'.Reached := by
  simp only [insertUnit] at h
  split at h
  · next s hs =>
    obtain rfl := Except.ok.inj h
    have hreached := (he c).insertText list
    rw [hs] at hreached
    exact he.set c hreached
  · cases h

/-- What a step on a written part preserves is preserved also where the part is not written. -/
theorem whenWritten_reached {α : Type} {step : Event → α → Except SelectionError Event}
    (hstep : ∀ e a e', e.Reached → step e a = .ok e' → e'.Reached) {e e' : Event} {a : Option α}
    (he : e.Reached) (h : whenWritten step e a = .ok e') : e'.Reached := by
  cases a with
  | none => exact (Except.ok.inj h) ▸ he
  | some a => exact hstep e a e' he h

/-- The event that an expression describes is reached. -/
theorem event_reached {x : Expression} {e : Event} (h : x.event = .ok e) : e.Reached := by
  obtain ⟨e₁, h₁, h⟩ := bind_eq_ok.mp h
  obtain ⟨e₂, h₂, h⟩ := bind_eq_ok.mp h
  obtain ⟨e₃, h₃, h⟩ := bind_eq_ok.mp h
  have he₁ : e₁.Reached :=
    whenWritten_reached (fun _ _ _ => insertWeekdays_reached) Event.reached_anytime h₁
  have he₂ : e₂.Reached := whenWritten_reached (fun _ _ _ => insertYears_reached) he₁ h₂
  have he₃ : e₃.Reached := by
    refine whenWritten_reached ?_ he₂ h₃
    intro e a e' he hstep
    obtain ⟨e₀, hmonth, hday⟩ := bind_eq_ok.mp hstep
    exact insertUnit_reached (insertUnit_reached he hmonth) hday
  -- without a time of day it is midnight
  split at h
  · rw [pure_eq_ok] at h
    subst h
    exact ((he₃.set .hour (reached_ofList [0])).set .minute (reached_ofList [0])).set .second
      (reached_ofList [0])
  · obtain ⟨e₄, hhour, h⟩ := bind_eq_ok.mp h
    obtain ⟨e₅, hminute, h⟩ := bind_eq_ok.mp h
    exact insertUnit_reached (insertUnit_reached (insertUnit_reached he₃ hhour) hminute) h

end Expression

open Selection in
/-- The event of a keyword is reached. -/
theorem Keyword.event_reached (k : Keyword) : k.event.Reached := by
  intro c
  cases k <;> cases c <;> first | exact .any | exact reached_ofList _

/-- **The event of a text is reached.** -/
theorem Event.parse_reached {text : String} {e : Event} (h : Event.parse text = .ok e) :
    e.Reached := by
  -- a keyword has a fixed event, and everything else is read as an expression
  have read : ∀ ws, Event.parse.read text ws = .ok e → e.Reached := by
    intro ws h
    simp only [Event.parse.read] at h
    split at h
    · cases h
    · split at h
      · next e' he' => exact (Except.ok.inj h) ▸ Expression.event_reached he'
      · cases h
  simp only [Event.parse] at h
  split at h
  · cases h
  · split at h
    · split at h
      · exact (Except.ok.inj h) ▸ Keyword.event_reached _
      · exact read _ h
    · exact read _ h

end Timetable
