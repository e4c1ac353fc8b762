import Os161.Lib.Runs

/-! `lamebus_interrupt`: the slots share one interrupt line, and interrupts without a handler are counted. -/

namespace Os161.Lamebus

def lbNslots : Nat := 32

/-- What a call reads: the register of pending slots, at first and after each handler, the slots with a driver, and
those with a handler. -/
structure Call where
  irqs : Nat → BitVec 32
  slotsinuse : BitVec 32
  irqfuncs : Nat → Bool

/-- The handlers called so far and the two counts; `duds` overflows only after 2 ^ 31 stray interrupts. -/
structure Pass where
  handled : Nat
  duds : Nat
  dudsThisTime : Nat

def Pass.dud (pass : Pass) : Pass := { pass with duds := pass.duds + 1, dudsThisTime := pass.dudsThisTime + 1 }

def Call.look (call : Call) (pass : Pass) (slot : Nat) : Pass :=
  if (call.irqs pass.handled).getLsbD slot = false then pass
  else if call.slotsinuse.getLsbD slot = false then pass.dud
  else if call.irqfuncs slot = false then pass.dud
  else { pass with handled := pass.handled + 1 }

def Call.loop (call : Call) (duds : Nat) : Pass := (List.range lbNslots).foldl call.look ⟨0, duds, 0⟩

/-- The static count after the call, or `none` for the panic. A stray interrupt returns at once. -/
def lamebusInterrupt (duds : Nat) (call : Call) : Option Nat :=
  if call.irqs 0 = 0 then some (duds + 1)
  else
    let pass := call.loop duds
    let duds := if pass.dudsThisTime = 0 ∧ pass.duds > 0 then 0 else pass.duds
    if duds > 10000 then none else some duds

end Os161.Lamebus
