import Micro86.Text.Numeral

/-!
Strict UTF-8. The first fault ends the reading; it covers the lead byte and the
continuation bytes that were still valid.
-/
namespace Micro86.Text.Utf8

inductive Reason
  | invalidStart
  | invalidContinuation
  | unexpectedEnd
  deriving DecidableEq, Repr

/-- A run of `length` bytes from `offset` on that is no character. -/
structure Fault where
  offset : Nat
  length : Nat
  lead : UInt8
  reason : Reason
  deriving DecidableEq, Repr

def Reason.message : Reason → String
  | .invalidStart => "invalid start byte"
  | .invalidContinuation => "invalid continuation byte"
  | .unexpectedEnd => "unexpected end of data"

def Fault.message (f : Fault) : String :=
  let place :=
    if f.length = 1 then
      let byte := String.ofList (zeroPadded 2 (Nat.toDigits 16 f.lead.toNat))
      s!"byte 0x{byte} in position {f.offset}"
    else s!"bytes in position {f.offset}-{f.offset+f.length-1}"
  s!"'utf-8' codec can't decode {place}: {f.reason.message}"

/-- A character of which `missing` bytes are still to come, the next one between `low` and
`high`. -/
structure Pending where
  offset : Nat
  lead : UInt8
  seen : Nat
  missing : Nat
  low : Nat
  high : Nat
  value : Nat

def Pending.fault (p : Pending) (reason : Reason) : Fault := ⟨p.offset,p.seen,p.lead,reason⟩

/-- What a lead byte above ASCII asks for. -/
def Pending.ofLead? (offset : Nat) (lead : UInt8) : Option Pending :=
  let b := lead.toNat
  if b < 0xC2 then none
  else if b < 0xE0 then some ⟨offset,lead,1,1,0x80,0xBF,b - 0xC0⟩
  else if b < 0xF0 then
    some ⟨offset,lead,1,2,if b = 0xE0 then 0xA0 else 0x80,if b = 0xED then 0x9F else 0xBF,b - 0xE0⟩
  else if b < 0xF5 then
    some ⟨offset,lead,1,3,if b = 0xF0 then 0x90 else 0x80,if b = 0xF4 then 0x8F else 0xBF,b - 0xF0⟩
  else none

/-- Reads the bytes from `offset` on; `read` holds the characters so far, last first. -/
def decodeFrom (offset : Nat) (pending : Option Pending) (read : List Char) :
    List UInt8 → Except Fault (List Char)
  | [] =>
    match pending with
    | none => .ok read.reverse
    | some p => .error (p.fault .unexpectedEnd)
  | b :: rest =>
    match pending with
    | none =>
      if b.toNat < 0x80 then decodeFrom (offset+1) none (Char.ofNat b.toNat :: read) rest
      else
        match Pending.ofLead? offset b with
        | none => .error ⟨offset,1,b,.invalidStart⟩
        | some p => decodeFrom (offset+1) (some p) read rest
    | some p =>
      if p.low ≤ b.toNat ∧ b.toNat ≤ p.high then
        let value := p.value*64+(b.toNat - 0x80)
        if p.missing = 1 then decodeFrom (offset+1) none (Char.ofNat value :: read) rest
        else
          decodeFrom (offset+1) (some { p with
            seen := p.seen+1, missing := p.missing - 1, low := 0x80, high := 0xBF,
            value := value }) read rest
      else .error (p.fault .invalidContinuation)

def decode (bytes : List UInt8) : Except Fault (List Char) := decodeFrom 0 none [] bytes

end Micro86.Text.Utf8
