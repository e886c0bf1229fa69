import Mathlib.Logic.Relation
import Machine6502.Runner
import Machine6502.Proofs.Storage

/-!
# The display

The runner shows pictures on the shared screen and the display draws the screen, each at
its own pace.  A state of the two says what each of them does next; in between, their
atomic actions may come in any order.  However they come, the display has drawn the final
screen when it leaves, unless there never was anything but black to draw.
-/

namespace Machine6502

namespace Display

/-- What the runner does next, with the memories whose pictures it has still to show. -/
inductive Work where
  | showing (left : List Memory)
  /-- The picture it has shown differs from the one before, which is to be noted. -/
  | noting (left : List Memory)
  | finished

/-- What the display does next.  It remembers whether the runner had finished when it
looked. -/
inductive Watch where
  | looking
  | taking (finished : Bool)
  | drawing (finished : Bool)
  | left

structure State where
  shared : Shared
  work : Work
  watch : Watch
  /-- The frames that were drawn, the last one first. -/
  frames : List String

def Work.isFinished : Work → Bool
  | .finished => true
  | _ => false

/-- After a turn, the display looks again or leaves. -/
def Watch.again (finished : Bool) : Watch :=
  if finished then .left else .looking

/-- One atomic action of the runner or of the display. -/
inductive Step : State → State → Prop
  | showPicture (shared : Shared) (memory : Memory) (left : List Memory) (watch : Watch)
      (frames : List String) :
      Step ⟨shared, .showing (memory :: left), watch, frames⟩
        ⟨(shared.showPicture memory).2,
          if (shared.showPicture memory).1 then .noting left else .showing left, watch, frames⟩
  | requestRedraw (shared : Shared) (left : List Memory) (watch : Watch)
      (frames : List String) :
      Step ⟨shared, .noting left, watch, frames⟩
        ⟨shared.requestRedraw, .showing left, watch, frames⟩
  | finish (shared : Shared) (watch : Watch) (frames : List String) :
      Step ⟨shared, .showing [], watch, frames⟩ ⟨shared, .finished, watch, frames⟩
  | look (shared : Shared) (work : Work) (frames : List String) :
      Step ⟨shared, work, .looking, frames⟩ ⟨shared, work, .taking work.isFinished, frames⟩
  | takeRequest (shared : Shared) (work : Work) (finished : Bool) (frames : List String) :
      Step ⟨shared, work, .taking finished, frames⟩
        ⟨shared.takeRequest.2, work,
          if shared.takeRequest.1 then .drawing finished else .again finished, frames⟩
  | draw (shared : Shared) (work : Work) (finished : Bool) (frames : List String) :
      Step ⟨shared, work, .drawing finished, frames⟩
        ⟨shared, work, .again finished, shared.screen.draw :: frames⟩

/-- A black screen and nothing noted; all pictures are still to be shown. -/
def initial (pictures : List Memory) : State :=
  ⟨.blank, .showing pictures, .looking, []⟩

/-- The screen after some pictures are shown on it one after the other. -/
def shown (screen : Screen) (pictures : List Memory) : Screen :=
  pictures.foldl (fun screen memory => (screen.update memory).2) screen

theorem shown_cons (screen : Screen) (memory : Memory) (pictures : List Memory) :
    shown screen (memory :: pictures) = shown (screen.update memory).2 pictures := by
  rw [shown, shown, List.foldl_cons]

/-- The memories whose pictures the runner has still to show. -/
def Work.left : Work → List Memory
  | .showing left => left
  | .noting left => left
  | .finished => []

/-- The frame drawn last shows the screen as it is; a screen that was never drawn is
black. -/
def State.UpToDate (state : State) : Prop :=
  match state.frames with
  | [] => state.shared.screen = .blank
  | frame :: _ => frame = state.shared.screen.draw

/-- Someone has still to act on a change of the screen: the runner is to note it, it is
noted, or the display is about to draw. -/
def State.Pending (state : State) : Prop :=
  (∃ left, state.work = .noting left) ∨ state.shared.redraw = true ∨
    ∃ finished, state.watch = .drawing finished

/-- What holds of every state that the two get to. -/
structure State.Faithful (pictures : List Memory) (state : State) : Prop where
  screen : shown state.shared.screen state.work.left = shown .blank pictures
  current : state.UpToDate ∨ state.Pending
  /-- The display is not ahead of the runner: when it has seen it finished, it is. -/
  seen : state.watch = .taking true ∨ state.watch = .drawing true ∨ state.watch = .left →
    state.work = .finished
  settled : state.watch = .left → state.UpToDate

variable {pictures : List Memory}

theorem faithful_initial (pictures : List Memory) : (initial pictures).Faithful pictures where
  screen := rfl
  current := .inl rfl
  seen := by simp [initial]
  settled := by simp [initial]

theorem eq_left_of_again {finished : Bool} (hleft : Watch.again finished = .left) :
    finished = true := by
  cases finished with
  | true => rfl
  | false => simp [Watch.again] at hleft

theorem again_ne_taking (finished seen : Bool) : Watch.again finished ≠ .taking seen := by
  cases finished <;> simp [Watch.again]

theorem again_ne_drawing (finished seen : Bool) : Watch.again finished ≠ .drawing seen := by
  cases finished <;> simp [Watch.again]

theorem showPicture_eq (shared : Shared) (memory : Memory) :
    shared.showPicture memory =
      ((shared.screen.update memory).1,
        { shared with screen := (shared.screen.update memory).2 }) :=
  rfl

/-- A picture that differs is to be noted; any other leaves the screen as it was. -/
theorem faithful_showPicture {shared : Shared} {memory : Memory} {left : List Memory}
    {watch : Watch} {frames : List String}
    (h : State.Faithful pictures ⟨shared, .showing (memory :: left), watch, frames⟩) :
    State.Faithful pictures ⟨(shared.showPicture memory).2,
      if (shared.showPicture memory).1 then .noting left else .showing left, watch, frames⟩ := by
  have hseen := h.seen
  have hworking : watch ≠ .taking true ∧ watch ≠ .drawing true ∧ watch ≠ .left := by
    refine ⟨fun hwatch => ?_, fun hwatch => ?_, fun hwatch => ?_⟩ <;>
      simp [hwatch] at hseen
  have hshown : shown (shared.screen.update memory).2 left = shown .blank pictures :=
    (shown_cons shared.screen memory left).symm.trans h.screen
  rw [showPicture_eq]
  by_cases hchanged : (shared.screen.update memory).1 = true
  · rw [if_pos hchanged]
    exact ⟨hshown, .inr (.inl ⟨left, rfl⟩), by simp [hworking], by simp [hworking]⟩
  · have hscreen : (shared.screen.update memory).2 = shared.screen := by
      simp only [Screen.update, decide_eq_true_eq, not_not] at hchanged
      exact hchanged.symm
    rw [hscreen] at hshown
    rw [if_neg hchanged, hscreen]
    refine ⟨hshown, ?_, by simp [hworking], by simp [hworking]⟩
    · rcases h.current with hcurrent | ⟨_, hwork⟩ | hpending
      · exact .inl hcurrent
      · exact Work.noConfusion hwork
      · exact .inr (.inr hpending)

/-- A display that finds nothing noted after the runner has finished has drawn the final
screen. -/
theorem faithful_takeRequest {shared : Shared} {work : Work} {finished : Bool}
    {frames : List String} (h : State.Faithful pictures ⟨shared, work, .taking finished, frames⟩) :
    State.Faithful pictures ⟨shared.takeRequest.2, work,
      if shared.takeRequest.1 then .drawing finished else .again finished, frames⟩ := by
  have hfinished : finished = true → work = .finished := by
    rintro rfl
    exact h.seen (.inl rfl)
  by_cases hrequested : shared.takeRequest.1 = true
  · rw [if_pos hrequested]
    refine ⟨h.screen, .inr (.inr (.inr ⟨finished, rfl⟩)), fun hwatch => ?_, by simp⟩
    exact hfinished (by simpa using hwatch)
  · have hcurrent : State.UpToDate ⟨shared, work, .taking finished, frames⟩ ∨
        ∃ left, work = .noting left := by
      rcases h.current with hcurrent | hnoting | hrequest | ⟨_, hdrawing⟩
      · exact .inl hcurrent
      · exact .inr hnoting
      · exact absurd hrequest hrequested
      · exact Watch.noConfusion hdrawing
    rw [if_neg hrequested]
    refine ⟨h.screen, ?_, fun hwatch => ?_, fun hleft => ?_⟩
    · rcases hcurrent with hcurrent | hnoting
      · exact .inl hcurrent
      · exact .inr (.inl hnoting)
    · have hleft : Watch.again finished = .left := by
        simpa [again_ne_taking, again_ne_drawing] using hwatch
      exact hfinished (eq_left_of_again hleft)
    · rcases hcurrent with hcurrent | ⟨left, hnoting⟩
      · exact hcurrent
      · rw [hfinished (eq_left_of_again hleft)] at hnoting
        exact Work.noConfusion hnoting

theorem faithful_step {state next : State} (h : state.Faithful pictures)
    (hstep : Step state next) : next.Faithful pictures := by
  cases hstep with
  | showPicture shared memory left watch frames => exact faithful_showPicture h
  | requestRedraw shared left watch frames =>
      have hseen := h.seen
      refine ⟨h.screen, .inr (.inr (.inl rfl)), fun hwatch => ?_, fun hleft => ?_⟩
      · exact Work.noConfusion (hseen hwatch)
      · exact Work.noConfusion (hseen (.inr (.inr hleft)))
  | finish shared watch frames =>
      refine ⟨h.screen, ?_, fun _ => rfl, h.settled⟩
      rcases h.current with hcurrent | ⟨_, hwork⟩ | hpending
      · exact .inl hcurrent
      · exact Work.noConfusion hwork
      · exact .inr (.inr hpending)
  | look shared work frames =>
      refine ⟨h.screen, ?_, fun hwatch => ?_, by simp⟩
      · rcases h.current with hcurrent | hnoting | hrequest | ⟨_, hdrawing⟩
        · exact .inl hcurrent
        · exact .inr (.inl hnoting)
        · exact .inr (.inr (.inl hrequest))
        · exact Watch.noConfusion hdrawing
      · cases work with
        | finished => rfl
        | _ => simp [Work.isFinished] at hwatch
  | takeRequest shared work finished frames => exact faithful_takeRequest h
  | draw shared work finished frames =>
      refine ⟨h.screen, .inl rfl, fun hwatch => ?_, fun _ => rfl⟩
      have hleft : Watch.again finished = .left := by
        simpa [again_ne_taking, again_ne_drawing] using hwatch
      exact h.seen (.inr (.inl (congrArg Watch.drawing (eq_left_of_again hleft))))

theorem faithful_of_steps {state : State}
    (hsteps : Relation.ReflTransGen Step (initial pictures) state) : state.Faithful pictures := by
  induction hsteps with
  | refl => exact faithful_initial pictures
  | tail _ hstep ih => exact faithful_step ih hstep

/-- When the display leaves, the runner has finished, and the frame drawn last shows the
screen that the last picture left; if no frame was drawn, that screen is black. -/
theorem draws_final_screen {state : State}
    (hsteps : Relation.ReflTransGen Step (initial pictures) state)
    (hleft : state.watch = .left) :
    state.work = .finished ∧ state.shared.screen = shown .blank pictures ∧
      match state.frames with
      | [] => shown .blank pictures = .blank
      | frame :: _ => frame = (shown .blank pictures).draw := by
  have hfaithful := faithful_of_steps hsteps
  have hfinished := hfaithful.seen (.inr (.inr hleft))
  have hscreen : state.shared.screen = shown .blank pictures := by
    rw [← hfaithful.screen, hfinished]
    rfl
  have hcurrent := hfaithful.settled hleft
  rw [State.UpToDate, hscreen] at hcurrent
  exact ⟨hfinished, hscreen, hcurrent⟩

/-- A memory with one white cell in its frame buffer. -/
def whiteCorner : Memory := Memory.blank.write Screen.base 1

theorem showPicture_blank : Shared.blank.showPicture .blank = (false, .blank) := by
  have hblack : Screen.ofMemory .blank = .blank := by
    simp only [Screen.ofMemory, Screen.blank, Memory.read_blank, Screen.mk.injEq]
    ext index hindex : 1
    rw [Vector.getElem_ofFn, Vector.getElem_replicate]
    rfl
  simp [Shared.showPicture, Screen.update, hblack, Shared.blank]

theorem showPicture_whiteCorner :
    Shared.blank.showPicture whiteCorner = (true, ⟨.ofMemory whiteCorner, false, none⟩) := by
  have hwhite : Screen.blank ≠ .ofMemory whiteCorner := by
    intro hsame
    have hcorner := congrArg (fun screen => screen.pixels[0]) hsame
    have hcell : whiteCorner.read (Screen.base + UInt16.ofNat 0) = 1 := by
      rw [whiteCorner, Memory.read_write_eq_update Memory.size_blank]
      exact Function.update_self _ _ _
    simp only [Screen.ofMemory, Screen.blank, Vector.getElem_ofFn, Vector.getElem_replicate,
      hcell] at hcorner
    exact absurd hcorner (by decide)
  simp [Shared.showPicture, Screen.update, hwhite, Shared.blank]

/-- The display looks before the first picture and takes before the second is noted; still
it draws the second. -/
theorem draws_final_screen_whiteCorner :
    ∃ state, Relation.ReflTransGen Step (initial [.blank, whiteCorner]) state ∧
      state.watch = .left ∧
      state.work = .finished ∧ state.shared.screen = shown .blank [.blank, whiteCorner] ∧
        match state.frames with
        | [] => shown .blank [.blank, whiteCorner] = .blank
        | frame :: _ => frame = (shown .blank [.blank, whiteCorner]).draw := by
  have hfirst := Step.showPicture .blank .blank [whiteCorner] (.taking false) []
  have hsecond := Step.showPicture .blank whiteCorner [] (.taking false) []
  rw [showPicture_blank] at hfirst
  rw [showPicture_whiteCorner] at hsecond
  have hsteps : Relation.ReflTransGen Step (initial [.blank, whiteCorner])
      ⟨⟨.ofMemory whiteCorner, false, none⟩, .finished, .left,
        [(Screen.ofMemory whiteCorner).draw]⟩ :=
    .head (.look .blank _ []) <| .head hfirst <| .head hsecond <|
    .head (.takeRequest _ _ false []) <| .head (.requestRedraw _ _ _ _) <|
    .head (.finish _ _ _) <| .head (.look _ _ _) <| .head (.takeRequest _ _ true []) <|
    .single (.draw _ _ true [])
  exact ⟨_, hsteps, rfl, draws_final_screen hsteps rfl⟩

end Display

end Machine6502
