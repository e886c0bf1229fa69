import Machine6502.Proofs.Calls

/-!
# Nested calls

In a run of calls and returns alone, as long as no more than 128 calls are open and none is
returned from twice, every return takes back the last call that is open.  The stack page
holds the addresses of the open calls, and nothing else is written.
-/

namespace Machine6502

namespace Cpu

/-- The machine after a number of steps. -/
def afterSteps (cpu : Cpu) (number : Nat) : Cpu :=
  (fun cpu => cpu.step.2)^[number] cpu

section Definitions

variable (cpu : Cpu)

def CallsAt (number : Nat) : Prop :=
  (cpu.afterSteps number).code = 0x20

def ReturnsAt (number : Nat) : Prop :=
  (cpu.afterSteps number).code = 0x60

instance (number : Nat) : Decidable (cpu.CallsAt number) :=
  inferInstanceAs (Decidable (_ = _))

/-- How many more calls than returns there are in a number of steps, all of them one or the
other. -/
def callDepth : Nat → Int
  | 0 => 0
  | number + 1 => if cpu.CallsAt number then callDepth number + 1 else callDepth number - 1

/-- The first steps all call or return, and the returns are nested with the calls, which fit
in the stack page. -/
structure NestsCalls (count : Nat) : Prop where
  kind : ∀ number < count, cpu.CallsAt number ∨ cpu.ReturnsAt number
  nonneg : ∀ number ≤ count, 0 ≤ cpu.callDepth number
  fits : ∀ number ≤ count, cpu.callDepth number ≤ 128

/-- A call that has not been returned from before some step: the calls have been nested
deeper ever since. -/
structure IsOpen (call number : Nat) : Prop where
  before : call < number
  calls : cpu.CallsAt call
  deeper : ∀ later, call < later → later ≤ number → cpu.callDepth call < cpu.callDepth later

/-- A return takes back an open call: the calls are then nested as deep as before it. -/
structure Matches (call back : Nat) : Prop extends cpu.IsOpen call back where
  returns : cpu.ReturnsAt back
  level : cpu.callDepth (back + 1) = cpu.callDepth call

/-- The calls that have not been returned from, the last one first. -/
def openCalls : Nat → List Nat
  | 0 => []
  | number + 1 =>
      if cpu.CallsAt number then number :: openCalls number else (openCalls number).tail

/-- The addresses that some calls push, the last one first. -/
def pushedBytes : List Nat → List UInt8
  | [] => []
  | call :: rest =>
      let last := (cpu.afterSteps call).pc + 2
      pushedBytes rest ++ [highByte last, lowByte last]

end Definitions

variable {cpu : Cpu} {count number call back : Nat} {rest : List Nat}

theorem afterSteps_succ (cpu : Cpu) (number : Nat) :
    cpu.afterSteps (number + 1) = (cpu.afterSteps number).step.2 :=
  Function.iterate_succ_apply' _ _ _

theorem size_afterSteps (cpu : Cpu) (number : Nat) :
    (cpu.afterSteps number).memory.size = cpu.memory.size := by
  induction number with
  | zero => rfl
  | succ number ih => rw [afterSteps_succ, size_step, ih]

theorem length_pushedBytes (cpu : Cpu) (calls : List Nat) :
    (cpu.pushedBytes calls).length = 2 * calls.length := by
  induction calls with
  | nil => rfl
  | cons call rest ih =>
      rw [pushedBytes, List.length_append, ih, List.length_cons]
      rfl

theorem ReturnsAt.not_callsAt (hreturns : cpu.ReturnsAt number) : ¬cpu.CallsAt number := by
  intro hcalls
  rw [CallsAt, show (cpu.afterSteps number).code = 0x60 from hreturns] at hcalls
  exact absurd hcalls (by decide)

theorem callDepth_of_call (hcalls : cpu.CallsAt number) :
    cpu.callDepth (number + 1) = cpu.callDepth number + 1 :=
  if_pos hcalls

theorem callDepth_of_return (hreturns : cpu.ReturnsAt number) :
    cpu.callDepth (number + 1) = cpu.callDepth number - 1 :=
  if_neg hreturns.not_callsAt

theorem openCalls_of_call (hcalls : cpu.CallsAt number) :
    cpu.openCalls (number + 1) = number :: cpu.openCalls number :=
  if_pos hcalls

theorem openCalls_of_return (hreturns : cpu.ReturnsAt number) :
    cpu.openCalls (number + 1) = (cpu.openCalls number).tail :=
  if_neg hreturns.not_callsAt

/-- A call is still open behind the return from one that was taken after it. -/
theorem IsOpen.behind {outer : Nat} (hopen : cpu.IsOpen outer call)
    (hmatches : cpu.Matches call back) : cpu.IsOpen outer (back + 1) := by
  have hlevel : cpu.callDepth outer < cpu.callDepth call :=
    hopen.deeper call hopen.before (Nat.le_refl call)
  have hbefore := Nat.lt_trans hopen.before hmatches.before
  refine ⟨Nat.lt_succ_of_lt hbefore, hopen.calls, fun later hlater hlast => ?_⟩
  rcases Nat.le_or_eq_of_le_succ hlast with hinside | rfl
  · rcases Nat.lt_or_ge call later with hinner | houter
    · exact Int.lt_trans hlevel (hmatches.deeper later hinner hinside)
    · exact hopen.deeper later hlater houter
  · rwa [hmatches.level]

/-- No two calls match one return. -/
theorem Matches.unique {other : Nat} (hmatches : cpu.Matches call back)
    (hother : cpu.Matches other back) : call = other := by
  have hlevel : cpu.callDepth call = cpu.callDepth other :=
    hmatches.level.symm.trans hother.level
  rcases Nat.lt_trichotomy call other with hbefore | hsame | hafter
  · have hdeeper := hmatches.deeper other hbefore (Nat.le_of_lt hother.before)
    omega
  · exact hsame
  · have hdeeper := hother.deeper call hafter (Nat.le_of_lt hmatches.before)
    omega

section Nesting

variable (hnests : cpu.NestsCalls count)

include hnests

theorem callDepth_eq_length (hnumber : number ≤ count) :
    cpu.callDepth number = (cpu.openCalls number).length := by
  induction number with
  | zero => rfl
  | succ number ih =>
      have hdepth := ih (Nat.le_of_succ_le hnumber)
      rcases hnests.kind number hnumber with hcalls | hreturns
      · rw [callDepth_of_call hcalls, openCalls_of_call hcalls, hdepth, List.length_cons]
        rfl
      · have hnonneg := hnests.nonneg (number + 1) hnumber
        rw [callDepth_of_return hreturns] at hnonneg
        rw [callDepth_of_return hreturns, openCalls_of_return hreturns, List.length_tail]
        omega

/-- There is an open call before every return. -/
theorem exists_openCalls_of_return (hback : back < count) (hreturns : cpu.ReturnsAt back) :
    ∃ call rest, cpu.openCalls back = call :: rest := by
  have hlength := callDepth_eq_length hnests (Nat.le_of_lt hback)
  have hnonneg := hnests.nonneg (back + 1) hback
  rw [callDepth_of_return hreturns] at hnonneg
  exact List.exists_cons_of_length_pos (by omega)

/-- A return leads to the depth of the last open call. -/
theorem level_of_openCalls (hback : back < count) (hreturns : cpu.ReturnsAt back)
    (hopen : cpu.openCalls back = call :: cpu.openCalls call) (hbefore : call < back) :
    cpu.callDepth (back + 1) = cpu.callDepth call := by
  have hcall : call ≤ count := Nat.le_of_lt (Nat.lt_trans hbefore hback)
  rw [callDepth_eq_length hnests hback, callDepth_eq_length hnests hcall,
    openCalls_of_return hreturns, hopen, List.tail_cons]

/-- The first of the open calls is open, and the others are those that were open before it. -/
theorem isOpen_of_openCalls (hnumber : number ≤ count)
    (hopen : cpu.openCalls number = call :: rest) :
    cpu.IsOpen call number ∧ cpu.openCalls call = rest := by
  induction number using Nat.strong_induction_on generalizing call rest with
  | _ number ih =>
      cases number with
      | zero => cases hopen
      | succ number =>
          rcases hnests.kind number hnumber with hcalls | hreturns
          · rw [openCalls_of_call hcalls, List.cons.injEq] at hopen
            obtain ⟨rfl, rfl⟩ := hopen
            refine ⟨⟨Nat.lt_succ_self number, hcalls, fun later hlater hlast => ?_⟩, rfl⟩
            obtain rfl : later = number + 1 := Nat.le_antisymm hlast hlater
            rw [callDepth_of_call hcalls]
            exact Int.lt_succ _
          · -- The return takes back the last open call, which was taken inside the next one.
            obtain ⟨inner, others, hinner⟩ := exists_openCalls_of_return hnests hnumber hreturns
            rw [openCalls_of_return hreturns, hinner, List.tail_cons] at hopen
            obtain ⟨hisOpen, rfl⟩ :=
              ih number (Nat.lt_succ_self number) (Nat.le_of_succ_le hnumber) hinner
            have hbefore : inner < number + 1 := Nat.lt_succ_of_lt hisOpen.before
            obtain ⟨houter, hrest⟩ :=
              ih inner hbefore (Nat.le_of_lt (Nat.lt_of_lt_of_le hbefore hnumber)) hopen
            have hlevel := level_of_openCalls hnests hnumber hreturns hinner hisOpen.before
            exact ⟨houter.behind ⟨hisOpen, hreturns, hlevel⟩, hrest⟩

theorem matches_of_openCalls (hback : back < count) (hreturns : cpu.ReturnsAt back)
    (hopen : cpu.openCalls back = call :: rest) : cpu.Matches call back := by
  obtain ⟨hisOpen, rfl⟩ := isOpen_of_openCalls hnests (Nat.le_of_lt hback) hopen
  exact ⟨hisOpen, hreturns, level_of_openCalls hnests hback hreturns hopen hisOpen.before⟩

/-- The call that matches a return is the last open one. -/
theorem Matches.openCalls_eq (hmatches : cpu.Matches call back) (hback : back < count) :
    cpu.openCalls back = call :: cpu.openCalls call := by
  obtain ⟨inner, rest, hopen⟩ := exists_openCalls_of_return hnests hback hmatches.returns
  obtain rfl := (matches_of_openCalls hnests hback hmatches.returns hopen).unique hmatches
  obtain ⟨-, rfl⟩ := isOpen_of_openCalls hnests (Nat.le_of_lt hback) hopen
  exact hopen

end Nesting

section Steps

variable (hfull : cpu.memory.size = Memory.addressCount)

include hfull

theorem step_of_callsAt (hcalls : cpu.CallsAt number) :
    (cpu.afterSteps number).step? = some (.continued, cpu.afterSteps (number + 1)) ∧
      (cpu.afterSteps (number + 1)).storage =
        ((cpu.afterSteps number).storage.push (highByte ((cpu.afterSteps number).pc + 2))).push
          (lowByte ((cpu.afterSteps number).pc + 2)) ∧
      (cpu.afterSteps (number + 1)).status = (cpu.afterSteps number).status := by
  rw [afterSteps_succ]
  obtain ⟨hstep, hstorage, hstatus, -⟩ :=
    step_of_call ((size_afterSteps cpu number).trans hfull) hcalls
  exact ⟨hstep, hstorage, hstatus⟩

theorem step_of_returnsAt (hreturns : cpu.ReturnsAt number) :
    (cpu.afterSteps number).step? = some (.continued, cpu.afterSteps (number + 1)) ∧
      (cpu.afterSteps (number + 1)).storage = (cpu.afterSteps number).storage.drop 2 ∧
      (cpu.afterSteps (number + 1)).status = (cpu.afterSteps number).status ∧
      (cpu.afterSteps (number + 1)).pc = (cpu.afterSteps number).storage.peekWord 1 + 1 := by
  rw [afterSteps_succ]
  exact step_of_return ((size_afterSteps cpu number).trans hfull) hreturns

/-- Calls and returns go on, and keep the accumulator, both index registers and the status. -/
theorem step_of_kind (hkind : cpu.CallsAt number ∨ cpu.ReturnsAt number) :
    (cpu.afterSteps number).step? = some (.continued, cpu.afterSteps (number + 1)) ∧
      (cpu.afterSteps (number + 1)).a = (cpu.afterSteps number).a ∧
      (cpu.afterSteps (number + 1)).x = (cpu.afterSteps number).x ∧
      (cpu.afterSteps (number + 1)).y = (cpu.afterSteps number).y ∧
      (cpu.afterSteps (number + 1)).status = (cpu.afterSteps number).status := by
  rcases hkind with hcalls | hreturns
  · obtain ⟨hstep, hstorage, hstatus⟩ := step_of_callsAt hfull hcalls
    exact ⟨hstep, congrArg Storage.a hstorage, congrArg Storage.x hstorage,
      congrArg Storage.y hstorage, hstatus⟩
  · obtain ⟨hstep, hstorage, hstatus, -⟩ := step_of_returnsAt hfull hreturns
    exact ⟨hstep, congrArg Storage.a hstorage, congrArg Storage.x hstorage,
      congrArg Storage.y hstorage, hstatus⟩

variable (hnests : cpu.NestsCalls count)

include hnests

/-- The stack page holds the addresses that the open calls pushed. -/
theorem stacked_afterSteps (hnumber : number ≤ count) :
    (cpu.afterSteps number).storage.Stacked cpu.s (cpu.pushedBytes (cpu.openCalls number)) := by
  induction number with
  | zero => exact .nil cpu.storage
  | succ number ih =>
      have hstacked := ih (Nat.le_of_succ_le hnumber)
      rcases hnests.kind number hnumber with hcalls | hreturns
      · have hfits := hnests.fits (number + 1) hnumber
        rw [callDepth_eq_length hnests hnumber, openCalls_of_call hcalls,
          List.length_cons] at hfits
        rw [(step_of_callsAt hfull hcalls).2.1, openCalls_of_call hcalls]
        refine hstacked.push_push ?_ _ _
        rw [length_pushedBytes]
        omega
      · obtain ⟨call, rest, hopen⟩ := exists_openCalls_of_return hnests hnumber hreturns
        rw [hopen] at hstacked
        rw [(step_of_returnsAt hfull hreturns).2.1, openCalls_of_return hreturns, hopen]
        exact hstacked.drop_two

/-- A return goes on behind the call that it takes back, with the stack pointer as it was
before the call. -/
theorem Matches.back_behind_call (hmatches : cpu.Matches call back) (hback : back < count) :
    (cpu.afterSteps (back + 1)).pc = (cpu.afterSteps call).pc + 3 ∧
      (cpu.afterSteps (back + 1)).s = (cpu.afterSteps call).s := by
  have hcall : call ≤ count := Nat.le_of_lt (Nat.lt_trans hmatches.before hback)
  have hopen := hmatches.openCalls_eq hnests hback
  have hbefore := stacked_afterSteps hfull hnests (Nat.le_of_lt hback)
  have hafter := stacked_afterSteps hfull hnests hback
  rw [hopen] at hbefore
  rw [openCalls_of_return hmatches.returns, hopen] at hafter
  constructor
  · rw [(step_of_returnsAt hfull hmatches.returns).2.2.2, hbefore.peekWord_one, wordOf_bytes,
      UInt16.add_assoc]
    rfl
  · exact hafter.pointer.trans (stacked_afterSteps hfull hnests hcall).pointer.symm

theorem kept_afterSteps (hnumber : number ≤ count) :
    (cpu.afterSteps number).a = cpu.a ∧ (cpu.afterSteps number).x = cpu.x ∧
      (cpu.afterSteps number).y = cpu.y ∧ (cpu.afterSteps number).status = cpu.status := by
  induction number with
  | zero => exact ⟨rfl, rfl, rfl, rfl⟩
  | succ number ih =>
      obtain ⟨ha, hx, hy, hstatus⟩ := ih (Nat.le_of_succ_le hnumber)
      obtain ⟨-, ha', hx', hy', hstatus'⟩ := step_of_kind hfull (hnests.kind number hnumber)
      exact ⟨ha'.trans ha, hx'.trans hx, hy'.trans hy, hstatus'.trans hstatus⟩

/-- A step writes the two cells behind those of the open calls, if anything. -/
theorem changed_of_step (hnumber : number < count) {address : UInt16}
    (hchanged : (cpu.afterSteps (number + 1)).read address ≠
      (cpu.afterSteps number).read address) :
    ∃ places : Nat, (places : Int) < 2 * cpu.callDepth (number + 1) ∧
      address = Storage.cellBelow cpu.s places := by
  have hpointer := (stacked_afterSteps hfull hnests (Nat.le_of_lt hnumber)).pointer
  rw [length_pushedBytes] at hpointer
  rcases hnests.kind number hnumber with hcalls | hreturns
  · have hdepth := callDepth_of_call hcalls
    rw [callDepth_eq_length hnests (Nat.le_of_lt hnumber)] at hdepth
    have hcell := congrFun (congrArg Storage.cell (step_of_callsAt hfull hcalls).2.1) address
    rw [Storage.cell_push_push, hpointer, ← Storage.below_succ] at hcell
    split at hcell
    · rename_i hlower
      exact ⟨2 * (cpu.openCalls number).length + 1, by omega, hlower⟩
    · split at hcell
      · rename_i hupper
        exact ⟨2 * (cpu.openCalls number).length, by omega, hupper⟩
      · exact absurd hcell hchanged
  · have hcell := congrArg Storage.cell (step_of_returnsAt hfull hreturns).2.1
    exact absurd (congrFun hcell address) hchanged

theorem changed_afterSteps (hnumber : number ≤ count) {address : UInt16}
    (hchanged : (cpu.afterSteps number).read address ≠ cpu.read address) :
    ∃ deepest ≤ number, ∃ places : Nat, (places : Int) < 2 * cpu.callDepth deepest ∧
      address = Storage.cellBelow cpu.s places := by
  induction number with
  | zero => exact absurd rfl hchanged
  | succ number ih =>
      by_cases hbefore : (cpu.afterSteps number).read address = cpu.read address
      · rw [← hbefore] at hchanged
        exact ⟨number + 1, Nat.le_refl _, changed_of_step hfull hnests hnumber hchanged⟩
      · obtain ⟨deepest, hdeepest, hplaces⟩ := ih (Nat.le_of_succ_le hnumber) hbefore
        exact ⟨deepest, Nat.le_succ_of_le hdeepest, hplaces⟩

end Steps

/-- Calls and returns that are nested and fit in the stack page all go on.  Every return has
one matching call, and goes on behind it with the stack pointer as it was.  All other
registers keep what they held, and no cells change but as many below the first stack pointer
as the deepest nesting takes. -/
theorem returns_match_calls (hfull : cpu.memory.size = Memory.addressCount)
    (hnests : cpu.NestsCalls count) :
    (∀ number < count,
        (cpu.afterSteps number).step? = some (.continued, cpu.afterSteps (number + 1))) ∧
      (∀ back < count, cpu.ReturnsAt back → ∃! call, cpu.Matches call back) ∧
      (∀ call back, back < count → cpu.Matches call back →
        (cpu.afterSteps (back + 1)).pc = (cpu.afterSteps call).pc + 3 ∧
          (cpu.afterSteps (back + 1)).s = (cpu.afterSteps call).s) ∧
      ∀ number ≤ count,
        ((cpu.afterSteps number).a = cpu.a ∧ (cpu.afterSteps number).x = cpu.x ∧
          (cpu.afterSteps number).y = cpu.y ∧ (cpu.afterSteps number).status = cpu.status) ∧
        ∀ address, (cpu.afterSteps number).read address ≠ cpu.read address →
          ∃ deepest ≤ number, ∃ places : Nat, (places : Int) < 2 * cpu.callDepth deepest ∧
            address = Storage.cellBelow cpu.s places := by
  refine ⟨fun number hnumber => (step_of_kind hfull (hnests.kind number hnumber)).1, ?_, ?_, ?_⟩
  · intro back hback hreturns
    obtain ⟨call, rest, hopen⟩ := exists_openCalls_of_return hnests hback hreturns
    have hmatches := matches_of_openCalls hnests hback hreturns hopen
    exact ⟨call, hmatches, fun other hother => hother.unique hmatches⟩
  · intro call back hback hmatches
    exact hmatches.back_behind_call hfull hnests hback
  · intro number hnumber
    exact ⟨kept_afterSteps hfull hnests hnumber,
      fun address => changed_afterSteps hfull hnests hnumber⟩

/-- A routine that returns at once. -/
theorem returns_match_calls_of_routine :
    (holding [0x20, 0x04, 0x00, 0x00, 0x60]).memory.size = Memory.addressCount ∧
      (holding [0x20, 0x04, 0x00, 0x00, 0x60]).NestsCalls 2 ∧
      (holding [0x20, 0x04, 0x00, 0x00, 0x60]).Matches 0 1 ∧
      ((holding [0x20, 0x04, 0x00, 0x00, 0x60]).afterSteps 2).pc = 3 ∧
      ((holding [0x20, 0x04, 0x00, 0x00, 0x60]).afterSteps 2).s =
        (holding [0x20, 0x04, 0x00, 0x00, 0x60]).s := by
  have hfull := size_holding [0x20, 0x04, 0x00, 0x00, 0x60] (by decide)
  have hread := read_holding [0x20, 0x04, 0x00, 0x00, 0x60] (by decide)
  have hpc := pc_holding [0x20, 0x04, 0x00, 0x00, 0x60]
  generalize holding [0x20, 0x04, 0x00, 0x00, 0x60] = cpu at *
  have hcalls : cpu.CallsAt 0 := by
    rw [CallsAt, afterSteps, Function.iterate_zero_apply, code, read, hpc, hread]
    rfl
  have hreturns : cpu.ReturnsAt 1 := by
    have htarget : cpu.callTarget = 4 := by
      have hkeeps : cpu.KeepsOperand := keepsOperand_of_outside (by simp [hpc])
      rw [callTarget_eq_operandWord_iff.mpr hkeeps, operandWord, Memory.readWord, hpc, hread]
      rfl
    obtain ⟨-, hstorage, -, hafter⟩ := step_of_call hfull hcalls
    have hcells := @Storage.ne_stackCell_of_outside 4 (by decide)
    have hcode : cpu.step.2.read 4 = 0x60 := by
      refine (congrFun (congrArg Storage.cell hstorage) 4).trans ?_
      rw [Storage.cell_push_push, if_neg (hcells _), if_neg (hcells _), storage]
      exact congrFun hread 4
    rw [htarget, landing, hpc] at hafter
    rw [ReturnsAt, code, afterSteps_succ]
    exact (congrArg cpu.step.2.read hafter).trans hcode
  have hzero : cpu.callDepth 0 = 0 := rfl
  have hone : cpu.callDepth 1 = 1 := callDepth_of_call hcalls
  have htwo : cpu.callDepth 2 = 0 := by
    rw [callDepth_of_return hreturns, hone]
    rfl
  have hnests : cpu.NestsCalls 2 := by
    have hdepth : ∀ number ≤ 2, 0 ≤ cpu.callDepth number ∧ cpu.callDepth number ≤ 128 := by
      intro number hnumber
      obtain rfl | rfl | rfl : number = 0 ∨ number = 1 ∨ number = 2 := by omega
      all_goals omega
    refine ⟨fun number hnumber => ?_, fun number hnumber => (hdepth number hnumber).1,
      fun number hnumber => (hdepth number hnumber).2⟩
    obtain rfl | rfl : number = 0 ∨ number = 1 := by omega
    · exact .inl hcalls
    · exact .inr hreturns
  have hmatches : cpu.Matches 0 1 := by
    refine ⟨⟨Nat.zero_lt_one, hcalls, fun later hlater hlast => ?_⟩, hreturns, htwo⟩
    obtain rfl : later = 1 := Nat.le_antisymm hlast hlater
    rw [hone]
    exact Int.zero_lt_one
  obtain ⟨-, -, hreturned, -⟩ := returns_match_calls hfull hnests
  obtain ⟨hbehind, hpointer⟩ := hreturned 0 1 (by decide) hmatches
  refine ⟨hfull, hnests, hmatches, hbehind.trans ?_, hpointer⟩
  rw [afterSteps, Function.iterate_zero_apply, hpc]
  rfl

end Cpu

end Machine6502
