import SealedStore.Step
/-!
# Injected faults

A plan of faults is a list of rules.  A rule that fits a call lets it pass a number of times and
then refuses it a number of times; a rule that lets a call pass leaves it to the rules after it.
-/
namespace SealedStore.Fault

/-- Refuses calls of one method. -/
structure Rule where
  method : String
  /-- A part of the call's subject. -/
  key : String
  /-- How many fitting calls still pass. -/
  skip : Nat
  /-- How many are refused after those; all of them when there is no number. -/
  times : Option Nat
deriving DecidableEq, Repr

/-- Rules in the order in which they are tried. -/
abbrev Plan := List Rule

/-- Whether a text occurs in another. -/
def occursIn (part whole : List Char) : Bool :=
  part.isPrefixOf whole || match whole with
    | [] => false
    | _ :: r => occursIn part r

/-- Whether a rule is about a call. -/
def Rule.fits (rule : Rule) (method subject : String) : Bool :=
  rule.method = method && occursIn rule.key.toList subject.toList

/-- Whether a call is refused, and the plan that counts it. -/
def Plan.check (method subject : String) : Plan → Bool × Plan
  | [] => (false, [])
  | rule :: rest =>
    let pass (rule : Rule) : Bool × Plan :=
      let r := Plan.check method subject rest
      (r.1, rule :: r.2)
    if rule.fits method subject then
      if rule.skip ≠ 0 then pass { rule with skip := rule.skip - 1 }
      else match rule.times with
        | none => (true, rule :: rest)
        | some 0 => pass rule
        | some (n + 1) => (true, { rule with times := some n } :: rest)
    else pass rule

/-- Lets a call pass or fails, as the plan says. -/
def Plan.gate (fail : String → StoreError) (method subject : String) : Step Plan Unit := fun plan =>
  match Plan.check method subject plan with
  | (true, rest) => (.error (fail ("injected " ++ method)), rest)
  | (false, rest) => (.ok (), rest)

end SealedStore.Fault
