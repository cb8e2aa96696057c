import StackMachine.Builtin.Arithmetic
import StackMachine.Builtin.Comparison
import StackMachine.Builtin.Control
import StackMachine.Builtin.Conversion
import StackMachine.Builtin.Literal
import StackMachine.Registry
/-! The builtin opcodes: number, mnemonic, values popped and pushed, immediate
cells, and what each does. -/
namespace StackMachine.Builtin

namespace Nr

def halt : Int32 := 0
def pushInt : Int32 := 1
def add : Int32 := 2
def sub : Int32 := 3
def mul : Int32 := 4
def div : Int32 := 5
def mod : Int32 := 6
def neg : Int32 := 7
def pushString : Int32 := 8
def pushRational : Int32 := 9
def pushOpcode : Int32 := 10
def shl : Int32 := 17
def shr : Int32 := 18
def eq : Int32 := 19
def ne : Int32 := 20
def lt : Int32 := 21
def le : Int32 := 22
def gt : Int32 := 23
def ge : Int32 := 24
def jump : Int32 := 25
def jumpIfTrue : Int32 := 26
def jumpIfFalse : Int32 := 27
def concat : Int32 := 28
def strlen : Int32 := 29
def toRational : Int32 := 30
def toInteger : Int32 := 31
def invoke : Int32 := 32
def pushWide : Int32 := 34

end Nr

/-- The count of immediates is the first of them. -/
def countedImmediates : Int := -1

def define (number : Int32) (name : String) (params results : UInt32) (immediates : Int)
    (operation : Routine Unit) (docs : String) : Descriptor :=
  { number, name, params, results, immediates, docs, operation }

/-- In increasing order of their numbers. -/
def definitions : List Descriptor :=
  [define Nr.halt "HALT" 0 0 0 halt
     "Stop the engine cleanly. No operands.",
   define Nr.pushInt "PUSH_INT" 0 1 1 pushInt
     "Push the next bytecode cell as an Integer.\nEncoding: PUSH_INT <n:i32>.",
   define Nr.add "ADD" 2 1 0 add
     "Pop b then a, push a+b. Integer+Integer or Rational+Rational; integers wrap.",
   define Nr.sub "SUB" 2 1 0 sub
     "Pop b then a, push a-b. Integer or Rational operands of one kind.",
   define Nr.mul "MUL" 2 1 0 mul
     "Pop b then a, push a*b. Integer or Rational operands of one kind.",
   define Nr.div "DIV" 2 1 0 div
     "Pop b then a, push a/b. Integer division truncates. b == 0 fails.",
   define Nr.mod "MOD" 2 1 0 mod
     "Pop b then a, push a%b. Integers only. b == 0 fails.",
   define Nr.neg "NEG" 1 1 0 neg
     "Pop a, push -a. Integer or Rational.",
   define Nr.pushString "PUSH_STRING" 0 1 countedImmediates pushString
     "Push a String built from the following cells.\nEncoding: PUSH_STRING <len:i32> <rune:i32>\x7blen\x7d.",
   define Nr.pushRational "PUSH_RATIONAL" 0 1 2 pushRational
     "Push num/den as a Rational.\nEncoding: PUSH_RATIONAL <num:i32> <den:i32>, den != 0.",
   define Nr.pushOpcode "PUSH_OPCODE" 0 1 1 pushOpcode
     "Push an OpcodeRef.\nEncoding: PUSH_OPCODE <nr:i32>.",
   define 11 "POP" 1 0 0 discard
     "Discard the top of stack.",
   define 12 "DUP" 1 2 0 dup
     "Duplicate the top of stack.",
   define 13 "SWAP" 2 2 0 swap
     "Swap the top two values.",
   define 14 "BAND" 2 1 0 band
     "Pop b then a, push a&b. Integers only.",
   define 15 "BOR" 2 1 0 bor
     "Pop b then a, push a|b. Integers only.",
   define 16 "BXOR" 2 1 0 bxor
     "Pop b then a, push a^b. Integers only.",
   define Nr.shl "SHL" 2 1 0 shl
     "Pop b then a, push a<<b. 0 <= b < 64.",
   define Nr.shr "SHR" 2 1 0 shr
     "Pop b then a, push a>>b (arithmetic). 0 <= b < 64.",
   define Nr.eq "EQ" 2 1 0 eq
     "Pop b then a, push 1 if a and b are the same kind and payload, else 0.",
   define Nr.ne "NE" 2 1 0 ne
     "Pop b then a, push 0 if a and b are the same kind and payload, else 1.",
   define Nr.lt "LT" 2 1 0 lt
     "Pop b then a, push 1 if a < b else 0. Operands of one kind: Integer, Rational or String.",
   define Nr.le "LE" 2 1 0 le
     "Pop b then a, push 1 if a <= b else 0.",
   define Nr.gt "GT" 2 1 0 gt
     "Pop b then a, push 1 if a > b else 0.",
   define Nr.ge "GE" 2 1 0 ge
     "Pop b then a, push 1 if a >= b else 0.",
   define Nr.jump "JUMP" 0 0 1 jump
     "Continue at an absolute bytecode index.\nEncoding: JUMP <target:i32>.",
   define Nr.jumpIfTrue "JUMP_IF_TRUE" 1 0 1 (jumpIf true)
     "Pop an Integer; jump to target if it is non-zero.\nEncoding: JUMP_IF_TRUE <target:i32>.",
   define Nr.jumpIfFalse "JUMP_IF_FALSE" 1 0 1 (jumpIf false)
     "Pop an Integer; jump to target if it is zero.\nEncoding: JUMP_IF_FALSE <target:i32>.",
   define Nr.concat "CONCAT" 2 1 0 concat
     "Pop b then a, push the String a followed by b.",
   define Nr.strlen "STRLEN" 1 1 0 strlen
     "Pop a String, push its length in runes.",
   define Nr.toRational "TO_RATIONAL" 1 1 0 toRational
     "Pop an Integer (or Rational), push it as a Rational.",
   define Nr.toInteger "TO_INTEGER" 1 1 0 toInteger
     "Pop a Rational (or Integer), push it truncated toward zero as an Integer.",
   define Nr.invoke "INVOKE" 1 0 0 invoke
     "Pop an OpcodeRef and dispatch that opcode. Stack effect is that of the invoked opcode.",
   define 33 "NOP" 0 0 0 nop
     "Do nothing.",
   define Nr.pushWide "PUSH_WIDE" 0 1 2 pushWide
     "Push a 64-bit Integer from two cells.\nEncoding: PUSH_WIDE <hi:i32> <lo:u32 as i32>."]

/-- Why the builtins could not all be registered: the number of this one was
taken. Those before it stay registered. -/
structure Conflict where
  taken : Descriptor

def Conflict.fault (c : Conflict) : Fault := .duplicateOpcode c.taken.number

def Conflict.message (c : Conflict) : String :=
  "install builtin " ++ c.taken.name ++ ": " ++ c.fault.message

/-- What is installed: every definition, marked as builtin. -/
def table : List Descriptor := definitions.map fun d => { d with builtin := true }

def install (reg : Registry) : Option Conflict × Registry :=
  let (taken, reg) := reg.registerAll table
  (taken.map Conflict.mk, reg)

def registry : Registry := (install {}).2

end StackMachine.Builtin
