import Mathlib.Data.List.Perm.Basic

/-!
# Deep equality

Values without a comparison of their own. The walk counts the own properties of both sides and
then visits those of the first one only, so a property that the second side lacks counts when it
reads as the same value.
-/
namespace MatterJs.Util

inductive Kind
  | array
  | plain
  | uint8Array

inductive Value
  | string (s : String)
  | number (n : Int)
  | boolean (b : Bool)
  | bigint (n : Int)
  | function (id : Nat)
  | undefined
  | null
  /-- The own property names, and what any property reads as, own or inherited. -/
  | object (kind : Kind) (names : List String) (read : String → Value)

namespace Value

def typeof : Value → String
  | string _ => "string"
  | number _ => "number"
  | boolean _ => "boolean"
  | bigint _ => "bigint"
  | function _ => "function"
  | undefined => "undefined"
  | null | object .. => "object"

/-- The operator `===`, but for two objects. -/
def strictEquals : Value → Value → Bool
  | string s, string t => s == t
  | number m, number n | bigint m, bigint n => m == n
  | boolean b, boolean c => b == c
  | function i, function j => i == j
  | undefined, undefined | null, null => true
  | _, _ => false

def isDeepEqual : Value → Value → Bool → Bool
  | object _ ns f, object _ ms g, ignoreUndefinedProperties =>
    if ns.length ≠ ms.length ∧ !ignoreUndefinedProperties then false
    else
      ns.all fun n =>
        (f n).typeof == (g n).typeof &&
          if (f n).typeof == "object" then isDeepEqual (f n) (g n) false
          else strictEquals (f n) (g n)
  | a, b, _ => strictEquals a b

/-- Equal primitives, or containers of one kind with the same own names and the same shapes. -/
def SameShape : Value → Value → Prop
  | object k ns f, object l ms g => k = l ∧ ns.Perm ms ∧ ∀ n ∈ ns, SameShape (f n) (g n)
  | a, b => a = b

variable {a b c : Value}

theorem SameShape.symm (h : SameShape a b) : SameShape b a := by
  induction a generalizing b with
  | object k ns f ih =>
    cases b with
    | object l ms g =>
      obtain ⟨hk, hp, hs⟩ := h
      exact ⟨hk.symm, hp.symm, fun n hn => ih n (hs n (hp.mem_iff.mpr hn))⟩
    | _ => cases h
  | _ => cases b <;> exact Eq.symm h

theorem SameShape.trans (h : SameShape a b) (ht : SameShape b c) : SameShape a c := by
  induction a generalizing b c with
  | object k ns f ih =>
    cases b with
    | object l ms g =>
      cases c with
      | object m rs e =>
        obtain ⟨hk, hp, hs⟩ := h
        obtain ⟨hl, hq, hr⟩ := ht
        exact ⟨hk.trans hl, hp.trans hq, fun n hn => ih n (hs n hn) (hr n (hp.mem_iff.mp hn))⟩
      | _ => cases ht
    | _ => cases h
  | _ =>
    cases b <;> cases h
    exact ht

end Value

end MatterJs.Util
