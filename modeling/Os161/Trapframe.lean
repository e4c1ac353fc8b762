import Mathlib.Tactic.Common

/-! The registers saved on an exception. -/

namespace Os161

inductive Reg where
  | vaddr | status | cause | lo | hi | ra | at | v0 | v1 | a0 | a1 | a2 | a3
  | t0 | t1 | t2 | t3 | t4 | t5 | t6 | t7 | s0 | s1 | s2 | s3 | s4 | s5 | s6 | s7
  | t8 | t9 | k0 | k1 | gp | sp | s8 | epc
  deriving DecidableEq, Repr

def Trapframe : Type := Reg → UInt32

def Trapframe.set (tf : Trapframe) (reg : Reg) (value : UInt32) : Trapframe :=
  fun other => if other = reg then value else tf other

@[simp] theorem Trapframe.set_self (tf : Trapframe) (reg : Reg) (value : UInt32) : tf.set reg value reg = value := if_pos rfl

@[simp] theorem Trapframe.set_other (tf : Trapframe) {reg other} (differs : other ≠ reg) (value : UInt32) :
    tf.set reg value other = tf other := if_neg differs

end Os161
