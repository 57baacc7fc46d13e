import HostScript.Workbench.Functions

/-!
# What the objects of the workbench can do
-/

namespace HostScript.Workbench

def pointFields (x y : Int64) : Fields platform :=
  .readOnly fun _ name =>
    match name with
    | "x" => some (.int x)
    | "y" => some (.int y)
    | _ => none

def seqItems (items : List Value) (holes : Bool) : Indexed platform :=
  .readOnly fun w key => do
    let index ← w.view.asInt key
    match placeIn items.length index with
    | .ok place => return items[place]?
    | .error e => if holes then return none else throw e

def countdownSteps (r : Address) : Iterable platform where
  hasNext := do
    match (← get).object? r with
    | some (.foreign (.countdown limit _ next)) => return next < limit
    | _ => return false
  next := do
    let w ← get
    match w.object? r with
    | some (.foreign (.countdown limit failAt next)) =>
      if next = failAt then
        throw (.of (.custom ("iterator failed at " ++ Numeral.intText next.toInt)))
      else
        set (w.put r (.foreign (.countdown limit failAt (next + 1))))
        return .int ((limit - next) * 10)
    | _ => return .nil

def trackedResource (name mode : String) : Resource platform where
  create :=
    if mode.toList.contains 'd' then pure ()
    else do
      note ("create " ++ name)
      if mode.toList.contains 'c' then throw (.of (.custom ("cannot create " ++ name)))
  close := do
    note ("close " ++ name)
    if mode.toList.contains 'x' then throw (.of (.custom ("cannot close " ++ name)))

def host : Host platform where
  fields? _ cell :=
    match cell with
    | .point x y => some (pointFields x y)
    | _ => none
  indexed? _ cell :=
    match cell with
    | .seq _ items holes true => some (seqItems items holes)
    | _ => none
  entries? _ := none
  length? cell :=
    match cell with
    | .seq length _ _ _ => some length
    | _ => none
  iterable? r cell :=
    match cell with
    | .countdown .. => some (countdownSteps r)
    | _ => none
  resource? _ cell :=
    match cell with
    | .tracked name mode => some (trackedResource name mode)
    | _ => none
  callable? _ := none
  method? _ cell name :=
    match cell, name with
    | .point x y, "dist" => some ⟨"dist", .fixed [], .foreign (.distance x y)⟩
    | _, _ => none
  run := run

end HostScript.Workbench
