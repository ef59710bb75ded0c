import Orin.Rust.Checked

namespace Orin.Selftest

open Rust

-- A test's verdict with its detail text, and the state it leaves behind.
abbrev Test (σ : Type) := σ → Except Panic (Except String String × σ)

structure Tally where
  pass : Nat
  fail : Nat
  skip : Nat
  deriving DecidableEq

-- The suite under way, with the lines logged so far: the verdict decides between
-- `SELFTEST|PASS` and `SELFTEST|FAIL`.
structure Suite (σ : Type) where
  tally : Tally
  lines : List (String × Except String String)
  system : σ

variable {σ : Type}

def Suite.passed (t : Suite σ) (name detail : String) (s : σ) : Suite σ :=
  ⟨{ t.tally with pass := t.tally.pass + 1 }, t.lines ++ [(name, .ok detail)], s⟩

def Suite.failed (t : Suite σ) (name detail : String) (s : σ) : Suite σ :=
  ⟨{ t.tally with fail := t.tally.fail + 1 }, t.lines ++ [(name, .error detail)], s⟩

def run (name : String) (test : Test σ) (t : Suite σ) : Except Panic (Suite σ) := do
  match ← test t.system with
  | (.ok detail, s) => return t.passed name detail s
  | (.error detail, s) => return t.failed name detail s

-- What `kernel_main` does with the result.
def stop_on_failure (t : Suite σ) : Except Panic Unit :=
  if 0 < t.tally.fail then .error (.explicit "boot self-test failed") else .ok ()

variable {test : Test σ} {t : Suite σ} {name detail : String} {s : σ}

theorem run_passed (h : test t.system = .ok (.ok detail, s)) :
    run name test t = .ok (t.passed name detail s) := by
  rw [run, h, ok_bind]
  rfl

theorem run_failed (h : test t.system = .ok (.error detail, s)) :
    run name test t = .ok (t.failed name detail s) := by
  rw [run, h, ok_bind]
  rfl

end Orin.Selftest
