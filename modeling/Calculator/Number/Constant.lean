namespace Calculator.Number

def pi : Float := 3.141592653589793

def e : Float := 2.718281828459045

/-- The constants with their names, in the order in which they are listed. -/
def constants : List (String × Float) := [("pi", pi), ("e", e)]

def constant? (name : String) : Option Float := constants.lookup name

theorem constant?_eq_none_iff {name : String} :
    constant? name = none ↔ name ≠ "pi" ∧ name ≠ "e" := by
  simp [constant?, constants, List.lookup_eq_none_iff]

end Calculator.Number
