import Orin.Log
import Orin.Multiboot.Info

namespace Orin.Multiboot

open Rust Heapless

inductive PanicAction where
  | Halt
  | Reboot
  | Triple
  deriving DecidableEq, Repr

structure BootParams where
  log : Option Log.Level
  console : Option Log.Target
  selftest : Bool
  panic_action : PanicAction
  single : Bool
  mem_limit_mib : Option UInt64
  nx : Bool
  unknown : Str

def BootParams.default : BootParams where
  log := none
  console := none
  selftest := true
  panic_action := .Halt
  single := false
  mem_limit_mib := none
  nx := true
  unknown := Str.new

def is_ascii_whitespace (c : Char) : Bool :=
  c == ' ' || c == '\t' || c == '\n' || c == '\x0c' || c == '\r'

def split_ascii_whitespace (s : String) : List String :=
  ((s.toList.splitOnP is_ascii_whitespace).filter (· ≠ [])).map String.ofList

-- `tok.strip_prefix("orin.")`.
def strip_orin (tok : String) : Option String :=
  if "orin.".toList.isPrefixOf tok.toList then some (String.ofList (tok.toList.drop 5)) else none

-- `rest.split_once('=').unwrap_or((rest, ""))`.
def key_value (rest : String) : String × String :=
  (String.ofList (rest.toList.takeWhile (· ≠ '=')),
    String.ofList ((rest.toList.dropWhile (· ≠ '=')).drop 1))

def parse_digits : List Char → Nat → Option Nat
  | [], acc => some acc
  | c :: rest, acc =>
      if c.isDigit ∧ 10 * acc + (c.toNat - 48) < WORD then
        parse_digits rest (10 * acc + (c.toNat - 48))
      else none

-- `val.parse::<u64>()`: one leading plus sign, at least one digit, no overflow.
def parse_u64 (val : String) : Option UInt64 :=
  let digits := if val.toList.head? = some '+' then val.toList.tail else val.toList
  if digits = [] then none else (parse_digits digits 0).map UInt64.ofNat

def append_unknown (buf : Str) (tok : String) : Str :=
  (if buf.is_empty then buf else buf.push_str " ").push_str tok

def BootParams.note (p : BootParams) (tok : String) : BootParams :=
  { p with unknown := append_unknown p.unknown tok }

-- One `orin.*` token.
def apply_param (p : BootParams) (tok rest : String) : BootParams :=
  let key := (key_value rest).1
  let val := (key_value rest).2
  if key = "log" then
    match Log.Level.parse val with
    | some l => { p with log := some l }
    | none => p.note tok
  else if key = "console" then
    match Log.Target.parse val with
    | some t => { p with console := some t }
    | none => p.note tok
  else if key = "selftest" then { p with selftest := val != "off" }
  else if key = "panic" then
    { p with panic_action :=
        if val = "reboot" then .Reboot else if val = "triple" then .Triple else .Halt }
  else if key = "single" then { p with single := true }
  else if key = "memlimit" then
    match parse_u64 val with
    | some v => { p with mem_limit_mib := some v }
    | none => p.note tok
  else if key = "nx" then { p with nx := val != "off" }
  else p.note tok

-- Tokens without the `orin.` prefix belong to someone else and are skipped.
def parse_token (p : BootParams) (tok : String) : BootParams :=
  match strip_orin tok with
  | none => p
  | some rest => apply_param p tok rest

def parse_params (cmdline : String) : BootParams :=
  (split_ascii_whitespace cmdline).foldl parse_token BootParams.default

example : (parse_params "quiet orin.memlimit=+64 orin.nx=off").mem_limit_mib = some 64 := by
  decide +kernel

end Orin.Multiboot
