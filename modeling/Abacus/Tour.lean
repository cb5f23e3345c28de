import Abacus.Calculation.Record

namespace Abacus

namespace Tour

def codes : List String :=
  ["5", "1 + 1", "4 + 6 * 3", "(4 + 6)", "(4+6) * 3", "10 - 3 - 2", "7/2", "(0-7)/2", "1/0",
    "5^2", "a = 1; b= 2; c = a + b", "c * 10", "var = (1 + 14 * (54 - 2))", "(x = 3; x * x) + x",
    "a = b = 10", "(1 + 2", "undefined + 1"]

def rule : String := "=========="

def stop (calculation : Calculation) : List String :=
  [rule, "code: " ++ quoted calculation.code] ++
    (calculation.stage.tokens?.map fun tokens => "tokens: " ++ Token.labels tokens).toList ++
    (calculation.stage.tree?.map fun tree => "ast: " ++ tree.render).toList ++
    match calculation.outcome with
    | .ok value =>
        ["result: " ++ toString value, "variables: " ++ calculation.after.render]
    | .error error => [error.message]

def visit [Limits] (env : Environment) : List String → List String
  | [] => []
  | code :: codes =>
      let calculation := Calculation.of code env
      stop calculation ++ visit calculation.after codes

def output [Limits] : String :=
  String.join ((visit Environment.empty codes).map (· ++ "\n"))

end Tour

end Abacus
