/-! The core library's power with a natural exponent, whatever other powers a module imports. -/

attribute [instance (high), default_instance (20000)] instPowNat
