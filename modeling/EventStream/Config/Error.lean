namespace EventStream

inductive ConfigError where
  | missing (setting : String)
  | invalid (setting reason : String)

def ConfigError.message : ConfigError → String
  | .missing s => "missing required setting " ++ s
  | .invalid s r => "invalid value for " ++ s ++ ": " ++ r

end EventStream
